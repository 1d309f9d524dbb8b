import SpriteStage.Proofs.Rendering
import SpriteStage.Proofs.Unrolling
/-!
# What blocks can be run with

Whatever is put into the inputs of a block, almost all of it can be run with: a number input falls
back to its default, and a text input takes the text of any value. Two things do not go. An
integer that is longer than integers are ever written out has no text, and where an integer
becomes a scalar it must not lie beyond the largest one.
-/
namespace SpriteStage

/-- Numbers among which the defaults of the block types are. -/
class Everyday (α : Type) [Scalar α] : Prop where
  isSome_ofInt? : ∀ n : Int, 0 ≤ n → n ≤ 15 → (Scalar.ofInt? n : Option α).isSome = true

variable {α : Type} [Scalar α]

namespace Number

def hasScalar : Number α → Bool
  | .int n => (Scalar.ofInt? n : Option α).isSome
  | .real _ => true

theorem hasScalar_iff {n : Number α} : n.hasScalar = true ↔ ∃ x, n.toScalar = .ok x := by
  cases n with
  | real x => exact ⟨fun _ => ⟨x, rfl⟩, fun _ => rfl⟩
  | int k =>
    simp only [hasScalar, toScalar]
    split
    · rename_i x hx
      simp [hx]
    · rename_i hnone
      simp [hnone]

omit [Scalar α] in
theorem toValue_injective : Function.Injective (toValue : Number α → Value α) := by
  intro m n h
  cases m <;> cases n <;> cases h <;> rfl

end Number

namespace Instruction

/-- The numbers that become scalars when an instruction starts. -/
def measures : Instruction α → List (Number α)
  | .move n | .turn n | .wait n | .say _ n | .resize n => [n]
  | .goto x y => [x, y]
  | .recolour _ | .loop _ => []

def isFeasible (i : Instruction α) : Bool := i.measures.all Number.hasScalar

/-- The number inputs whose integer part alone counts. -/
def counted : List String := ["times", "color"]

end Instruction

/-! ## One input -/

namespace InputSpec

def given (s : InputSpec α) (raw : Fields α) : Value α := (raw.get? s.name).getD s.fallback

/-- Whether a block can be run with a raw value for an input. An integer does not go if it has to become a scalar
and has none, unless the lower bound stands in for it; all other values of number inputs go. -/
def serves (s : InputSpec α) (v : Value α) : Bool :=
  match s.kind with
  | .number =>
    match v.inputNumber? with
    | some (.int n) =>
      Instruction.counted.contains s.name || (.int n : Value α).lt? s.min == some true ||
        (.int n : Number α).hasScalar
    | _ => true
  | .text | .other _ => !v.isTooLong

/-- The inputs that the types of every stage have: numbers with an everyday default and no bound or the bound
zero, and texts. -/
inductive Usual : InputSpec α → Prop where
  | number (name : String) {fallback : Int} (low : 0 ≤ fallback) (high : fallback ≤ 15) :
      Usual (Catalog.number name fallback)
  | natural (name : String) {fallback : Int} (low : 0 ≤ fallback) (high : fallback ≤ 15) :
      Usual (Catalog.natural name fallback)
  | message (fallback : String) : Usual (Catalog.message fallback)

private theorem resolve_number (name : String) (fallback : Int) (v : Value α) :
    ((Catalog.number name fallback).resolve v).2 =
      .ok (v.inputNumber?.getD (.int fallback)).toValue := by
  simp only [resolve, Catalog.number, coerce]
  cases v.inputNumber? with
  | none => rfl
  | some n => rfl

theorem resolve_natural (name : String) (fallback : Int) (v : Value α) :
    ((Catalog.natural name fallback).resolve v).2 =
      .ok (Number.greatest (v.inputNumber?.getD (.int fallback)) (.int 0)).toValue := by
  have hbound : ∀ n : Number α, (Catalog.natural name fallback).bound n.toValue =
      .ok (Number.greatest n (.int 0)).toValue := by
    intro n
    have hlt : n.toValue.lt? (.int 0) = some (n.lt (.int 0)) := by
      cases n <;> simp [Number.toValue, Value.lt?, Value.number?]
    simp only [bound, raise, Catalog.natural, hlt, Number.greatest]
    cases n.lt (.int 0) <;> rfl
  simp only [resolve, Catalog.natural, coerce]
  cases v.inputNumber? with
  | none => exact hbound (.int fallback)
  | some n => exact hbound n

private theorem resolve_message (fallback : String) (v : Value α) :
    (v.isTooLong = true ∧ ((Catalog.message fallback).resolve v).2 = .error .integerTooLong) ∨
    (v.isTooLong = false ∧ ∃ text, ((Catalog.message fallback).resolve v).2 = .ok (.text text)) := by
  have hshown : v.display = if v.isTooLong then .error .integerTooLong else .ok v.shown := rfl
  cases v with
  | null => exact .inr ⟨rfl, fallback, rfl⟩
  | _ =>
    simp only [resolve, Catalog.message, display, hshown]
    split
    · rename_i hlong
      exact .inl ⟨hlong, rfl⟩
    · rename_i hshort
      exact .inr ⟨by simpa using hshort, _, rfl⟩

namespace Usual

variable {s : InputSpec α}

private theorem number_resolves (h : s.Usual) (hkind : s.kind = .number) (v : Value α) :
    ∃ n : Number α, (s.resolve v).2 = .ok n.toValue := by
  cases h with
  | number name => exact ⟨_, resolve_number name _ v⟩
  | natural name => exact ⟨_, resolve_natural name _ v⟩
  | message => cases hkind

private theorem serves_iff [Everyday α] (h : s.Usual) (hkind : s.kind = .number) {v : Value α} {n : Number α}
    (hresolve : (s.resolve v).2 = .ok n.toValue) :
    s.serves v = true ↔ s.name ∈ Instruction.counted ∨ n.hasScalar = true := by
  have hsmall : ∀ k : Int, 0 ≤ k → k ≤ 15 → (.int k : Number α).hasScalar = true :=
    Everyday.isSome_ofInt?
  have hnull : ∀ k : Int, (.int k : Value α).lt? .null = none := by simp [Value.lt?, Value.number?]
  have hzero : ∀ k : Int, (.int k : Value α).lt? (.int 0) = some (decide (k < 0)) := by
    simp [Value.lt?, Value.number?, Number.lt]
  cases h with
  | number name low high =>
    rw [resolve_number, Except.ok.injEq] at hresolve
    cases Number.toValue_injective hresolve
    cases hv : v.inputNumber? with
    | none => simp [serves, Catalog.number, hv, hsmall _ low high]
    | some m =>
      cases m with
      | int k => simp [serves, Catalog.number, hv, hnull]
      | real x => simp [serves, Catalog.number, hv, Number.hasScalar]
  | @natural name fallback low high =>
    rw [resolve_natural, Except.ok.injEq] at hresolve
    cases Number.toValue_injective hresolve
    cases hv : v.inputNumber? with
    | none =>
      have hlow : Number.lt (.int fallback : Number α) (.int 0) = false := by simpa [Number.lt] using low
      simp [serves, Catalog.natural, hv, Number.greatest, hlow, hsmall _ low high]
    | some m =>
      have hlowest : (.int 0 : Number α).hasScalar = true := hsmall 0 (by decide) (by decide)
      cases m with
      | int k =>
        -- The lower bound stands in for a negative number, whether that has a scalar or not.
        by_cases hk : k < 0
        · simp [serves, Catalog.natural, hv, hzero, Number.greatest, Number.lt, hk, hlowest]
        · simp [serves, Catalog.natural, hv, hzero, Number.greatest, Number.lt, hk]
      | real x =>
        have hgreatest : (Number.greatest (.real x) (.int 0)).hasScalar = true := by
          unfold Number.greatest
          split
          · exact hlowest
          · rfl
        simp [serves, Catalog.natural, hv, hgreatest]
  | message => cases hkind

omit [Scalar α] in
theorem kind (h : s.Usual) : s.kind = .number ∨ s.kind = .text := by
  cases h with
  | number | natural => exact .inl rfl
  | message => exact .inr rfl

private theorem text_resolves (h : s.Usual) (hkind : s.kind = .text) {v : Value α}
    (hserves : v.isTooLong = false) :
    ∃ text, (s.resolve v).2 = .ok (.text text) := by
  cases h with
  | number | natural => cases hkind
  | message fallback =>
    rcases resolve_message fallback v with ⟨hlong, -⟩ | ⟨-, htext⟩
    · rw [hserves] at hlong
      cases hlong
    · exact htext

private theorem resolve_error (h : s.Usual) (v : Value α) (e : Error) : (s.resolve v).2 = .error e ↔
    e = .integerTooLong ∧ s.kind = .text ∧ v.isTooLong = true := by
  rcases h.kind with hkind | hkind
  · obtain ⟨n, hn⟩ := h.number_resolves hkind v
    simp [hn, hkind]
  · cases hlong : v.isTooLong with
    | false =>
      obtain ⟨text, htext⟩ := h.text_resolves hkind hlong
      simp [htext]
    | true =>
      cases h with
      | number | natural => cases hkind
      | message fallback =>
        rcases resolve_message fallback v with ⟨-, herror⟩ | ⟨hshort, -⟩
        · simp [herror, hkind, eq_comm]
        · rw [hlong] at hshort
          cases hshort

end Usual

end InputSpec

/-! ## All inputs of a block -/

namespace BlockType

open InputSpec (given Usual)

def serves (t : BlockType α) (raw : Fields α) : Bool := t.inputs.all fun s => s.serves (s.given raw)

theorem resolveInto_cons (raw : Fields α) (s : InputSpec α) (rest : List (InputSpec α))
    (done : Fields α) : (resolveInto raw (s :: rest) done).2 =
      (s.resolve (s.given raw)).2.bind fun v => (resolveInto raw rest (done.put s.name v)).2 := by
  rw [resolveInto]
  cases hs : s.resolve ((raw.get? s.name).getD s.fallback) with
  | mk notices result =>
    simp only [given, hs]
    cases result <;> rfl

/-- All that is noted is where a default has to stand in. -/
theorem resolveInto_notices (raw : Fields α) (specs : List (InputSpec α)) (done : Fields α) :
    ∀ n ∈ (resolveInto raw specs done).1, ∃ name v fallback, n = .notNumeric name v fallback := by
  have hresolve : ∀ (s : InputSpec α) (v : Value α),
      ∀ n ∈ (s.resolve v).1, ∃ name v fallback, n = .notNumeric name v fallback := by
    intro s v n hn
    unfold InputSpec.resolve InputSpec.coerce at hn
    split at hn
    · split at hn
      · cases hn
      · exact ⟨_, _, _, List.mem_singleton.mp hn⟩
    · cases hn
    · cases hn
  induction specs generalizing done with
  | nil => simp [resolveInto]
  | cons s rest ih =>
    intro n hn
    rw [resolveInto] at hn
    split at hn
    · rename_i notices e heq
      exact hresolve s _ n (by rw [heq]; exact hn)
    · rename_i notices v heq
      rcases List.mem_append.mp hn with hn | hn
      · exact hresolve s _ n (by rw [heq]; exact hn)
      · exact ih _ n hn

private theorem resolveInto_error {raw : Fields α} {specs : List (InputSpec α)} {cause : Error}
    (hspecs : ∀ s ∈ specs, ∀ e, (s.resolve (s.given raw)).2 = .error e → e = cause) (done : Fields α)
    (e : Error) : (resolveInto raw specs done).2 = .error e ↔
      e = cause ∧ ∃ s ∈ specs, (s.resolve (s.given raw)).2 = .error cause := by
  induction specs generalizing done with
  | nil => simp [resolveInto]
  | cons s rest ih =>
    obtain ⟨hs, hrest⟩ := List.forall_mem_cons.mp hspecs
    rw [resolveInto_cons]
    cases hresolve : (s.resolve (s.given raw)).2 with
    | error e' =>
      cases hs e' hresolve
      simp [Except.bind, hresolve, eq_comm]
    | ok v =>
      simp [Except.bind, hresolve, ih hrest]

private theorem resolveInto_other {raw : Fields α} {specs : List (InputSpec α)} {done inputs : Fields α}
    (h : (resolveInto raw specs done).2 = .ok inputs) {name : String}
    (hname : name ∉ specs.map (·.name)) : inputs.get? name = done.get? name := by
  induction specs generalizing done with
  | nil =>
    cases h
    rfl
  | cons s rest ih =>
    obtain ⟨hne, hrest⟩ := not_or.mp (mt List.mem_cons.mpr hname)
    rw [resolveInto_cons] at h
    obtain ⟨v, -, h⟩ := bind_eq_ok h
    rw [ih h hrest, Fields.get?_put, if_neg hne]

theorem resolveInto_get? {raw : Fields α} {specs : List (InputSpec α)}
    (hnames : (specs.map (·.name)).Nodup) {done inputs : Fields α}
    (h : (resolveInto raw specs done).2 = .ok inputs) {s : InputSpec α} (hs : s ∈ specs) {v : Value α}
    (hv : (s.resolve (s.given raw)).2 = .ok v) : inputs.get? s.name = some v := by
  induction specs generalizing done with
  | nil => cases hs
  | cons s' rest ih =>
    obtain ⟨hfresh, hrest⟩ := List.nodup_cons.mp hnames
    rw [resolveInto_cons] at h
    obtain ⟨v', hv', h⟩ := bind_eq_ok h
    rcases List.mem_cons.mp hs with rfl | hs
    · cases hv.symm.trans hv'
      rw [resolveInto_other h hfresh, Fields.get?_put, if_pos rfl]
    · exact ih hrest h hs

/-- A type whose inputs are usual and have different names. -/
structure Regular (t : BlockType α) : Prop where
  names : (t.inputs.map (·.name)).Nodup
  usual : ∀ s ∈ t.inputs, s.Usual

omit [Scalar α] in
theorem builtIn_regular {t : BlockType α} (ht : t ∈ Catalog.builtIn.types) : t.Regular := by
  simp only [Catalog.builtIn, List.mem_cons, List.not_mem_nil, or_false] at ht
  rcases ht with rfl | rfl | rfl | rfl | rfl | rfl | rfl | rfl | rfl <;>
    exact ⟨by simp [Catalog.number, Catalog.natural, Catalog.message],
      by simp [Usual.number, Usual.natural, Usual.message]⟩

namespace Regular

variable {t : BlockType α} {raw inputs : Fields α} {s : InputSpec α}

/-- The values that a block runs with lack only if a text is wanted of an integer that is never written out. -/
theorem resolve_error (h : t.Regular) (raw : Fields α) (e : Error) : (t.resolve raw).2 = .error e ↔
    e = .integerTooLong ∧ ∃ s ∈ t.inputs, s.kind = .text ∧ (s.given raw).isTooLong = true := by
  have hspecs : ∀ s ∈ t.inputs, ∀ e, (s.resolve (s.given raw)).2 = .error e → e = .integerTooLong :=
    fun s hs e he => (((h.usual s hs).resolve_error _ e).mp he).1
  rw [resolve, resolveInto_error hspecs]
  apply and_congr_right'
  constructor
  · rintro ⟨s, hs, herror⟩
    exact ⟨s, hs, (((h.usual s hs).resolve_error _ _).mp herror).2⟩
  · rintro ⟨s, hs, hlong⟩
    exact ⟨s, hs, ((h.usual s hs).resolve_error _ _).mpr ⟨rfl, hlong⟩⟩

private theorem number?_resolve [Everyday α] (h : t.Regular) (hresolve : (t.resolve raw).2 = .ok inputs)
    (hs : s ∈ t.inputs) (hkind : s.kind = .number) {name : String} (hname : s.name = name) :
    ∃ n : Number α, Instruction.number? inputs name = some n ∧
      s.serves (s.given raw) = (decide (name ∈ Instruction.counted) || n.hasScalar) := by
  obtain ⟨n, hn⟩ := (h.usual s hs).number_resolves hkind (s.given raw)
  subst hname
  refine ⟨n, ?_, ?_⟩
  · rw [Instruction.number?, resolveInto_get? h.names hresolve hs hn]
    cases n <;> rfl
  · rw [Bool.eq_iff_iff, (h.usual s hs).serves_iff hkind hn]
    simp

private theorem text?_resolve (h : t.Regular) (hresolve : (t.resolve raw).2 = .ok inputs) (hs : s ∈ t.inputs)
    (hkind : s.kind = .text) {name : String} (hname : s.name = name) :
    ∃ text, Instruction.text? inputs name = some text ∧ s.serves (s.given raw) = true := by
  have hshort : (s.given raw).isTooLong = false := by
    rw [← Bool.not_eq_true]
    intro hlong
    have herror := (h.resolve_error raw .integerTooLong).mpr ⟨rfl, s, hs, hkind, hlong⟩
    rw [hresolve] at herror
    cases herror
  obtain ⟨text, htext⟩ := (h.usual s hs).text_resolves hkind hshort
  subst hname
  refine ⟨text, ?_, ?_⟩
  · rw [Instruction.text?, resolveInto_get? h.names hresolve hs htext]
    rfl
  · simp [InputSpec.serves, hkind, hshort]

end Regular

open Instruction in
/-- A block of a type of every stage that has values to run with has an instruction, and there is a scalar
wherever the instruction needs one if the raw values serve. -/
theorem builtIn_instruction [Everyday α] {t : BlockType α} (ht : t ∈ Catalog.builtIn.types)
    {raw inputs : Fields α} (hresolve : (t.resolve raw).2 = .ok inputs) :
    ∃ i, Instruction.ofInputs? t.id inputs = some i ∧ i.isFeasible = t.serves raw := by
  have hregular := builtIn_regular ht
  have hnumber := fun {s} => hregular.number?_resolve (s := s) hresolve
  have htext := fun {s} => hregular.text?_resolve (s := s) hresolve
  simp only [Catalog.builtIn, List.mem_cons, List.not_mem_nil, or_false] at ht
  rcases ht with rfl | rfl | rfl | rfl | rfl | rfl | rfl | rfl | rfl
  · obtain ⟨n, hn, hserves⟩ := hnumber List.mem_cons_self rfl (rfl : _ = "steps")
    exact ⟨.move n, by simp [ofInputs?, hn], by simp [hserves, isFeasible, measures, counted, serves]⟩
  · obtain ⟨n, hn, hserves⟩ := hnumber List.mem_cons_self rfl (rfl : _ = "degrees")
    exact ⟨.turn n, by simp [ofInputs?, hn], by simp [hserves, isFeasible, measures, counted, serves]⟩
  · obtain ⟨x, hx, hserves⟩ := hnumber List.mem_cons_self rfl (rfl : _ = "x")
    obtain ⟨y, hy, hserves'⟩ := hnumber (List.mem_cons_of_mem _ List.mem_cons_self) rfl (rfl : _ = "y")
    exact ⟨.goto x y, by simp [ofInputs?, hx, hy],
      by simp [hserves, hserves', isFeasible, measures, counted, serves]⟩
  · obtain ⟨n, hn, hserves⟩ := hnumber List.mem_cons_self rfl (rfl : _ = "seconds")
    exact ⟨.wait n, by simp [ofInputs?, hn], by simp [hserves, isFeasible, measures, counted, serves]⟩
  · obtain ⟨n, hn, hserves⟩ := hnumber List.mem_cons_self rfl (rfl : _ = "times")
    exact ⟨.loop n.truncate.toNat, by simp [ofInputs?, hn],
      by simp [hserves, isFeasible, measures, counted, serves]⟩
  · obtain ⟨text, ht, hshort⟩ := htext List.mem_cons_self rfl (rfl : _ = "message")
    obtain ⟨n, hn, hserves⟩ := hnumber (List.mem_cons_of_mem _ List.mem_cons_self) rfl (rfl : _ = "duration")
    exact ⟨.say text n, by simp [ofInputs?, ht, hn],
      by simp [hshort, hserves, isFeasible, measures, counted, serves]⟩
  · obtain ⟨text, ht, hshort⟩ := htext List.mem_cons_self rfl (rfl : _ = "message")
    obtain ⟨n, hn, hserves⟩ := hnumber (List.mem_cons_of_mem _ List.mem_cons_self) rfl (rfl : _ = "duration")
    exact ⟨.say (thinkMark ++ text) n, by simp [ofInputs?, ht, hn],
      by simp [hshort, hserves, isFeasible, measures, counted, serves]⟩
  · obtain ⟨n, hn, hserves⟩ := hnumber List.mem_cons_self rfl (rfl : _ = "change")
    exact ⟨.resize n, by simp [ofInputs?, hn], by simp [hserves, isFeasible, measures, counted, serves]⟩
  · obtain ⟨n, hn, hserves⟩ := hnumber List.mem_cons_self rfl (rfl : _ = "color")
    exact ⟨.recolour n.truncate, by simp [ofInputs?, hn],
      by simp [hserves, isFeasible, measures, counted, serves]⟩

/-- The raw values serve exactly if the block has values to run with and an instruction, and there is a scalar
wherever the instruction needs one. -/
theorem builtIn_serves [Everyday α] {t : BlockType α} (ht : t ∈ Catalog.builtIn.types) (raw : Fields α) :
    t.serves raw = true ↔ ∃ inputs i, (t.resolve raw).2 = .ok inputs ∧
      Instruction.ofInputs? t.id inputs = some i ∧ i.isFeasible = true := by
  constructor
  · intro hserves
    cases hresolve : (t.resolve raw).2 with
    | error e =>
      obtain ⟨-, s, hs, hkind, hlong⟩ := ((builtIn_regular ht).resolve_error raw e).mp hresolve
      have hall := List.all_eq_true.mp hserves s hs
      simp [InputSpec.serves, hkind, hlong] at hall
    | ok inputs =>
      obtain ⟨i, hi, hfeasible⟩ := builtIn_instruction ht hresolve
      exact ⟨inputs, i, rfl, hi, hfeasible.trans hserves⟩
  · rintro ⟨inputs, i, hresolve, hi, hfeasible⟩
    obtain ⟨i', hi', hfeasible'⟩ := builtIn_instruction ht hresolve
    cases hi.symm.trans hi'
    exact hfeasible'.symm.trans hfeasible

end BlockType

namespace Catalog

/-- Whether a block of the type with an id can be run with raw input values. A block of an unknown type is
skipped. -/
def serves (c : Catalog α) (typeId : String) (raw : Fields α) : Bool :=
  match c.find? typeId with
  | some t => t.serves raw
  | none => true

theorem builtIn_reads {t : BlockType α} (ht : t ∈ builtIn.types) (raw : Fields α) :
    builtIn.reading t.id raw = some (t.resolve raw).2 := by
  simp only [builtIn, List.mem_cons, List.not_mem_nil, or_false] at ht
  rcases ht with rfl | rfl | rfl | rfl | rfl | rfl | rfl | rfl | rfl <;> rfl

theorem builtIn_reading [Everyday α] {typeId : String} {raw : Fields α} {resolved : Except Error (Fields α)}
    (hserves : builtIn.serves typeId raw = true) (h : builtIn.reading typeId raw = some resolved) :
    ∃ inputs i, resolved = .ok inputs ∧ Instruction.ofInputs? typeId inputs = some i ∧
      i.isFeasible = true := by
  unfold reading at h
  split at h
  · obtain ⟨t, ht, rfl⟩ := Option.map_eq_some_iff.mp h
    have hid : t.id = typeId := by simpa using List.find?_some ht
    subst hid
    simp only [serves, ht] at hserves
    exact (BlockType.builtIn_serves (List.mem_of_find?_eq_some ht) raw).mp hserves
  · cases h

end Catalog

end SpriteStage
