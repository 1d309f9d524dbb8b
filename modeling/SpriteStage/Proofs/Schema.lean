import SpriteStage.Proofs.BinaryMagnitude
import SpriteStage.Proofs.Resolution
/-! # Inputs meet their declarations -/
namespace SpriteStage

variable {α : Type} [Scalar α]

/-! ## Raw values -/

namespace Value

/-- The numbers that raw values are read as. -/
inductive Reads : Value α → Number α → Prop where
  | int (n : Int) : Reads (.int n) (.int n)
  | real {x : α} (finite : Scalar.isFinite x = true) : Reads (.real x) (.real x)
  | text {s : String} {n : Number α} (spelled : numeral? s = some n) (finite : n.isFinite = true) :
      Reads (.text s) n

/-- The raw values that are not read as any number. -/
inductive Unreadable : Value α → Prop where
  | null : Unreadable .null
  | bool (b : Bool) : Unreadable (.bool b)
  | unbounded {x : α} (infinite : Scalar.isFinite x = false) : Unreadable (.real x)
  | blank {s : String} (blank : ∀ c ∈ s.toList, Text.isBlank c = true) : Unreadable (.text s)
  | unparsable {s : String} (wild : (numeral? s : Option (Number α)) = none) : Unreadable (.text s)
  | overflowing {s : String} {n : Number α} (spelled : numeral? s = some n) (infinite : n.isFinite = false) :
      Unreadable (.text s)
  | list (items : List (Value α)) : Unreadable (.list items)
  | object (fields : Fields α) : Unreadable (.object fields)

private theorem inputNumber?_real (x : α) :
    (Value.real x).inputNumber? = if Scalar.isFinite x then some (.real x) else none := by
  rw [inputNumber?]
  exact Option.filter_some

private theorem inputNumber?_text (s : String) :
    (Value.text s : Value α).inputNumber? = (numeral? s).filter Number.isFinite := by
  rw [inputNumber?]
  congr 1

private theorem numeral?_blank {s : String} (h : ∀ c ∈ s.toList, Text.isBlank c = true) :
    (numeral? s : Option (Number α)) = none := by
  have hdrop : s.toList.dropWhile Text.isBlank = [] := List.dropWhile_eq_nil_iff.mpr h
  have hdecimal : Numeral.decimal? [] = none := by decide
  simp only [numeral?, Text.trim, hdrop]
  change (Numeral.decimal? []).map _ = none
  rw [hdecimal, Option.map_none]

private theorem Reads.isFinite {v : Value α} {n : Number α} (h : v.Reads n) : n.isFinite = true := by
  cases h with
  | int n => rfl
  | real finite => exact finite
  | text _ finite => exact finite

private theorem reads_iff {v : Value α} {n : Number α} : v.Reads n ↔ v.inputNumber? = some n := by
  constructor
  · rintro (n | hfinite | ⟨hspelled, hfinite⟩)
    · rfl
    · rw [inputNumber?_real, if_pos hfinite]
    · rw [inputNumber?_text, Option.filter_eq_some_iff]
      exact ⟨hspelled, hfinite⟩
  · intro h
    cases v with
    | int k =>
      cases h
      exact .int k
    | real x =>
      rw [inputNumber?_real, Option.ite_none_right_eq_some] at h
      obtain ⟨hfinite, hn⟩ := h
      cases hn
      exact .real hfinite
    | text s =>
      rw [inputNumber?_text, Option.filter_eq_some_iff] at h
      exact .text h.1 h.2
    | _ => cases h

private theorem Unreadable.inputNumber? {v : Value α} (h : v.Unreadable) : v.inputNumber? = none := by
  cases h with
  | unbounded hinfinite => simp [inputNumber?_real, hinfinite]
  | blank hblank => simp [inputNumber?_text, numeral?_blank hblank]
  | unparsable hwild => simp [inputNumber?_text, hwild]
  | overflowing hspelled hinfinite => simp [inputNumber?_text, hspelled, hinfinite]
  | _ => rfl

/-- Every raw value is read as a number, or is of one of the kinds that are not. -/
theorem reads_or_unreadable (v : Value α) : (∃ n, v.Reads n) ∨ v.Unreadable := by
  cases v with
  | null => exact .inr .null
  | bool b => exact .inr (.bool b)
  | int n => exact .inl ⟨_, .int n⟩
  | real x =>
    cases hx : Scalar.isFinite x with
    | true => exact .inl ⟨_, .real hx⟩
    | false => exact .inr (.unbounded hx)
  | text s =>
    cases hs : (numeral? s : Option (Number α)) with
    | none => exact .inr (.unparsable hs)
    | some n =>
      cases hn : n.isFinite with
      | true => exact .inl ⟨n, .text hs hn⟩
      | false => exact .inr (.overflowing hs hn)
  | list items => exact .inr (.list items)
  | object fields => exact .inr (.object fields)

end Value

/-! ## Ranges -/

variable [Valued α]

/-- The bounds of a number input. They are finite, and the lower one is not above the upper one. -/
structure Range (α : Type) [Scalar α] [Valued α] where
  low : Option (Number α)
  high : Option (Number α)
  finite_low : ∀ l ∈ low, l.isFinite = true
  finite_high : ∀ h ∈ high, h.isFinite = true
  ordered : ∀ l ∈ low, ∀ h ∈ high, l.value ≤ h.value

namespace Range

/-- A finite number within the bounds. -/
structure Holds (r : Range α) (n : Number α) : Prop where
  finite : n.isFinite = true
  low : ∀ l ∈ r.low, l.value ≤ n.value
  high : ∀ h ∈ r.high, n.value ≤ h.value

/-- What becomes of a number: it is left as it is within the bounds, and else it becomes the bound that it has
passed. -/
structure Clamps (r : Range α) (m n : Number α) : Prop where
  inside : r.Holds m → n = m
  below : ∀ l ∈ r.low, m.value < l.value → n = l
  above : ∀ h ∈ r.high, h.value < m.value → n = h

end Range

namespace InputSpec

/-- A number input whose bounds and default are numbers, not Booleans. The default need not lie in the range. -/
structure Measures (s : InputSpec α) (r : Range α) (fallback : Number α) : Prop where
  default : s.fallback = fallback.toValue
  finite : fallback.isFinite = true
  min : s.min = (r.low.map Number.toValue).getD .null
  max : s.max = (r.high.map Number.toValue).getD .null

namespace Measures

variable {s : InputSpec α} {r : Range α} {fallback m : Number α}

omit [Valued α] in
theorem lt?_toValue (m n : Number α) : m.toValue.lt? n.toValue = some (m.lt n) := by
  cases m <;> cases n <;> simp [Number.toValue, Value.lt?, Value.number?]

private theorem raise (h : s.Measures r fallback) (hm : m.isFinite = true) :
    ∃ n, s.raise m.toValue = .ok n.toValue ∧ n.isFinite = true ∧ (∀ l ∈ r.low, l.value ≤ n.value) ∧
      (n = m ∨ ∃ l ∈ r.low, m.value < l.value ∧ n = l) := by
  cases hlow : r.low with
  | none =>
    refine ⟨m, ?_, hm, by simp, .inl rfl⟩
    rw [InputSpec.raise, h.min, hlow]
    rfl
  | some l =>
    have hl := r.finite_low l hlow
    have hraise : s.raise m.toValue = .ok (if m.lt l then l else m).toValue := by
      have hlt := lt?_toValue m l
      rw [InputSpec.raise, h.min, hlow, Option.map_some, Option.getD_some]
      cases l <;> dsimp only [Number.toValue] at hlt ⊢ <;> rw [hlt] <;> cases m.lt _ <;> rfl
    rw [hraise]
    cases hlt : m.lt l with
    | true => exact ⟨l, rfl, hl, by simp, .inr ⟨l, rfl, (Number.lt_iff hm hl).mp hlt, rfl⟩⟩
    | false => exact ⟨m, rfl, hm, by simpa using (Number.not_lt_iff hm hl).mp hlt, .inl rfl⟩

private theorem lower (h : s.Measures r fallback) (hm : m.isFinite = true) :
    ∃ n, s.lower m.toValue = .ok n.toValue ∧ n.isFinite = true ∧ (∀ u ∈ r.high, n.value ≤ u.value) ∧
      (n = m ∨ ∃ u ∈ r.high, u.value < m.value ∧ n = u) := by
  cases hhigh : r.high with
  | none =>
    refine ⟨m, ?_, hm, by simp, .inl rfl⟩
    rw [InputSpec.lower, h.max, hhigh]
    rfl
  | some u =>
    have hu := r.finite_high u hhigh
    have hlower : s.lower m.toValue = .ok (if u.lt m then u else m).toValue := by
      have hlt := lt?_toValue u m
      rw [InputSpec.lower, h.max, hhigh, Option.map_some, Option.getD_some]
      cases u <;> dsimp only [Number.toValue] at hlt ⊢ <;> rw [hlt] <;> cases Number.lt _ m <;> rfl
    rw [hlower]
    cases hlt : u.lt m with
    | true => exact ⟨u, rfl, hu, by simp, .inr ⟨u, rfl, (Number.lt_iff hu hm).mp hlt, rfl⟩⟩
    | false => exact ⟨m, rfl, hm, by simpa using (Number.not_lt_iff hu hm).mp hlt, .inl rfl⟩

private theorem bound (h : s.Measures r fallback) (hm : m.isFinite = true) :
    ∃ n, s.bound m.toValue = .ok n.toValue ∧ r.Holds n ∧ r.Clamps m n := by
  obtain ⟨n, hraise, hn, hnlow, hraised⟩ := h.raise hm
  obtain ⟨k, hlower, hk, hkhigh, hlowered⟩ := h.lower hn
  have hbound : s.bound m.toValue = .ok k.toValue := by
    rw [InputSpec.bound, hraise]
    exact hlower
  have hholds : r.Holds k := by
    refine ⟨hk, fun l hl => ?_, hkhigh⟩
    rcases hlowered with rfl | ⟨u, hu, -, rfl⟩
    · exact hnlow l hl
    · exact r.ordered l hl k hu
  refine ⟨k, hbound, hholds, ⟨fun hinside => ?_, fun l hl hbelow => ?_, fun u hu habove => ?_⟩⟩
  · have hnm : n = m := by
      refine hraised.resolve_right ?_
      rintro ⟨l, hl, hlt, -⟩
      exact not_le.mpr hlt (hinside.low l hl)
    subst hnm
    refine hlowered.resolve_right ?_
    rintro ⟨u, hu, hlt, -⟩
    exact not_le.mpr hlt (hinside.high u hu)
  · have hnl : n = l := by
      rcases hraised with rfl | ⟨l', hl', -, rfl⟩
      · exact absurd (hnlow l hl) (not_le.mpr hbelow)
      · exact Option.mem_unique hl' hl
    subst hnl
    refine hlowered.resolve_right ?_
    rintro ⟨u, hu, hlt, -⟩
    exact not_le.mpr hlt (r.ordered n hl u hu)
  · have hnm : n = m := by
      refine hraised.resolve_right ?_
      rintro ⟨l, hl, hlt, -⟩
      exact absurd (r.ordered l hl u hu) (not_le.mpr (habove.trans hlt))
    subst hnm
    rcases hlowered with rfl | ⟨u', hu', -, rfl⟩
    · exact absurd (hkhigh u hu) (not_le.mpr habove)
    · exact Option.mem_unique hu' hu

omit [Valued α] in
theorem inputNumber?_toValue {n : Number α} (h : n.isFinite = true) : n.toValue.inputNumber? = some n := by
  apply Value.reads_iff.mp
  cases n with
  | int k => exact .int k
  | real x => exact .real h

/-- What a raw value gives to a number input: the number that it is read as or the default, within the bounds. -/
theorem resolve (h : s.Measures r fallback) (hkind : s.kind = .number) (v : Value α) :
    ∃ n, (s.resolve v).2 = .ok n.toValue ∧ r.Holds n ∧ r.Clamps (v.inputNumber?.getD fallback) n := by
  have hresolve : (s.resolve v).2 = s.bound (v.inputNumber?.getD fallback).toValue := by
    rw [InputSpec.resolve, hkind]
    simp only [coerce]
    cases v.inputNumber? with
    | none => rw [Option.getD_none, ← h.default]
    | some n => rfl
  rw [hresolve]
  apply h.bound
  cases hv : v.inputNumber? with
  | none => exact h.finite
  | some n => exact (Value.reads_iff.mpr hv).isFinite

end Measures

omit [Valued α] in
theorem resolve_text {s : InputSpec α} (hkind : s.kind ≠ .number) {fallback : String}
    (hfallback : s.fallback = .text fallback) {v w : Value α} (h : (s.resolve v).2 = .ok w) :
    ∃ text, w = .text text := by
  have hdisplay : s.display v = .ok w := by
    rw [resolve] at h
    cases hk : s.kind with
    | number => exact absurd hk hkind
    | text | other _ => rwa [hk] at h
  by_cases hnull : v = .null
  · subst hnull
    cases hdisplay
    exact ⟨fallback, hfallback⟩
  · have hmap : s.display v = v.display.map .text := by
      cases v with
      | null => exact absurd rfl hnull
      | _ => rfl
    rw [hmap] at hdisplay
    cases hshown : v.display with
    | error e =>
      rw [hshown] at hdisplay
      cases hdisplay
    | ok text =>
      rw [hshown] at hdisplay
      cases hdisplay
      exact ⟨text, rfl⟩

omit [Valued α] in
theorem resolve_text_self {s : InputSpec α} (hkind : s.kind ≠ .number) (text : String) :
    (s.resolve (.text text)).2 = .ok (.text text) := by
  rw [resolve]
  cases hk : s.kind with
  | number => exact absurd hk hkind
  | text | other _ => rfl

end InputSpec

/-! ## All inputs of a block -/

private theorem Fields.names_put {α : Type} {fs : Fields α} {name : String} (h : name ∉ fs.names) (v : Value α) :
    (fs.put name v).names = fs.names ++ [name] := by
  induction fs with
  | nil => rfl
  | cons entry rest ih =>
    obtain ⟨n, w⟩ := entry
    obtain ⟨hne, hrest⟩ := not_or.mp (mt List.mem_cons.mpr h)
    rw [put, if_neg (Ne.symm hne)]
    exact congrArg (n :: ·) (ih hrest)

namespace BlockType

omit [Valued α] in
theorem resolveInto_names {raw : Fields α} {specs : List (InputSpec α)} {done inputs : Fields α}
    (hnames : (done.names ++ specs.map (·.name)).Nodup) (h : (resolveInto raw specs done).2 = .ok inputs) :
    inputs.names = done.names ++ specs.map (·.name) := by
  induction specs generalizing done with
  | nil =>
    cases h
    exact (List.append_nil _).symm
  | cons s rest ih =>
    have hfresh : s.name ∉ done.names := fun hmem =>
      (List.nodup_append.mp hnames).2.2 _ hmem _ (List.mem_cons_self ..) rfl
    rw [resolveInto_cons] at h
    obtain ⟨v, -, h⟩ := bind_eq_ok h
    rw [List.map_cons, ← List.singleton_append, ← List.append_assoc, ← Fields.names_put hfresh v] at hnames ⊢
    exact ih hnames h

omit [Valued α] in
theorem resolveInto_resolves {raw : Fields α} {specs : List (InputSpec α)} {done inputs : Fields α}
    (h : (resolveInto raw specs done).2 = .ok inputs) {s : InputSpec α} (hs : s ∈ specs) :
    ∃ v, (s.resolve (s.given raw)).2 = .ok v := by
  induction specs generalizing done with
  | nil => cases hs
  | cons s' rest ih =>
    rw [resolveInto_cons] at h
    obtain ⟨v, hv, h⟩ := bind_eq_ok h
    rcases List.mem_cons.mp hs with rfl | hs
    · exact ⟨v, hv⟩
    · exact ih h hs

omit [Valued α] in
theorem resolveInto_congr {raw raw' : Fields α} {specs : List (InputSpec α)}
    (h : ∀ s ∈ specs, (s.resolve (s.given raw)).2 = (s.resolve (s.given raw')).2) (done : Fields α) :
    (resolveInto raw specs done).2 = (resolveInto raw' specs done).2 := by
  induction specs generalizing done with
  | nil => rfl
  | cons s rest ih =>
    obtain ⟨hs, hrest⟩ := List.forall_mem_cons.mp h
    rw [resolveInto_cons, resolveInto_cons, hs]
    congr 1
    funext v
    exact ih hrest _

omit [Valued α] in
theorem resolveInto_given {raw raw' : Fields α} {specs : List (InputSpec α)}
    (h : ∀ s ∈ specs, raw.get? s.name = raw'.get? s.name) (done : Fields α) :
    resolveInto raw specs done = resolveInto raw' specs done := by
  induction specs generalizing done with
  | nil => rfl
  | cons s rest ih =>
    obtain ⟨hs, hrest⟩ := List.forall_mem_cons.mp h
    simp only [resolveInto, hs, ih hrest]

/-- A type whose inputs have different names, and defaults of their kinds; the number inputs have ranges. -/
structure Schematic (t : BlockType α) : Prop where
  names : (t.inputs.map (·.name)).Nodup
  numbers : ∀ s ∈ t.inputs, s.kind = .number → ∃ r fallback, s.Measures r fallback
  texts : ∀ s ∈ t.inputs, s.kind ≠ .number → ∃ text, s.fallback = .text text

/-- The values that a block runs with meet the declaration of its type: they are there under the declared names in
the declared order, numbers are within their ranges and are the raw ones where these can be read and are within,
texts are texts, what else there is among the raw values makes no difference, and the values are resolved to
themselves. -/
theorem resolve_meets_schema {t : BlockType α} (ht : t.Schematic) (raw : Option (Fields α)) {inputs : Fields α}
    (h : (t.resolve (raw.getD [])).2 = .ok inputs) :
    inputs.names = t.inputs.map (·.name) ∧
    (∀ s ∈ t.inputs, s.kind = .number → ∀ r fallback, s.Measures r fallback →
      ∃ n : Number α, inputs.get? s.name = some n.toValue ∧ r.Holds n ∧
        (∀ v m, (raw.getD []).get? s.name = some v → v.Reads m → r.Clamps m n) ∧
        ((raw.getD []).get? s.name = none → r.Clamps fallback n) ∧
        ∀ v, (raw.getD []).get? s.name = some v → v.Unreadable → r.Clamps fallback n) ∧
    (∀ s ∈ t.inputs, s.kind ≠ .number → ∃ text, inputs.get? s.name = some (.text text)) ∧
    (∀ other : Fields α, (∀ s ∈ t.inputs, other.get? s.name = (raw.getD []).get? s.name) →
      t.resolve other = t.resolve (raw.getD [])) ∧
    (t.resolve inputs).2 = .ok inputs := by
  generalize raw.getD [] = given at h ⊢
  have hget : ∀ s ∈ t.inputs, ∀ v, (s.resolve (s.given given)).2 = .ok v → inputs.get? s.name = some v :=
    fun s hs v hv => resolveInto_get? ht.names h hs hv
  have hnames : (Fields.names ([] : Fields α) ++ t.inputs.map (·.name)).Nodup := ht.names
  refine ⟨resolveInto_names hnames h, ?_, ?_, fun other hother => resolveInto_given hother [], ?_⟩
  · intro s hs hkind r fallback hrange
    obtain ⟨n, hn, hholds, hclamps⟩ := hrange.resolve hkind (s.given given)
    refine ⟨n, hget s hs _ hn, hholds, fun v m hv hreads => ?_, fun hnone => ?_, fun v hv hunreadable => ?_⟩
    · rwa [InputSpec.given, hv, Option.getD_some, Value.reads_iff.mp hreads] at hclamps
    · rwa [InputSpec.given, hnone, Option.getD_none, hrange.default,
        InputSpec.Measures.inputNumber?_toValue hrange.finite] at hclamps
    · rwa [InputSpec.given, hv, Option.getD_some, hunreadable.inputNumber?] at hclamps
  · intro s hs hkind
    obtain ⟨fallback, hfallback⟩ := ht.texts s hs hkind
    obtain ⟨v, hv⟩ := resolveInto_resolves h hs
    obtain ⟨text, rfl⟩ := InputSpec.resolve_text hkind hfallback hv
    exact ⟨text, hget s hs _ hv⟩
  · -- Each value that was given is given again, so the whole is built up as before.
    refine (resolveInto_congr (fun s hs => ?_) []).trans h
    obtain ⟨v, hv⟩ := resolveInto_resolves h hs
    rw [InputSpec.given, hget s hs v hv, Option.getD_some, hv]
    by_cases hkind : s.kind = .number
    · obtain ⟨r, fallback, hrange⟩ := ht.numbers s hs hkind
      obtain ⟨n, hn, hholds, -⟩ := hrange.resolve hkind (s.given given)
      obtain ⟨k, hk, -, hclamps⟩ := hrange.resolve hkind n.toValue
      rw [InputSpec.Measures.inputNumber?_toValue hholds.finite, Option.getD_some] at hclamps
      cases hn.symm.trans hv
      rw [hk, hclamps.inside hholds]
    · obtain ⟨fallback, hfallback⟩ := ht.texts s hs hkind
      obtain ⟨text, rfl⟩ := InputSpec.resolve_text hkind hfallback hv
      exact InputSpec.resolve_text_self hkind text

/-- A type with a level between an integer and a scalar, an offset whose default lies below its bound, and a text. -/
def dial : BlockType Float where
  id := "dial"
  category := .looks
  label := "Dial"
  inputs := [
    { name := "level", kind := .number, fallback := .int 20, min := .int 0, max := .real (Scalar.decimal 105 1) },
    { name := "offset", kind := .number, fallback := .real (-Scalar.decimal 25 1), min := .int (-2) },
    Catalog.message "Hello!"]

def dialLevel : Range Float where
  low := some (.int 0)
  high := some (.real (Scalar.decimal 105 1))
  finite_low := by
    rintro l ⟨⟩
    rfl
  finite_high := by
    rintro h ⟨⟩
    rfl
  ordered := by
    rintro l ⟨⟩ h ⟨⟩
    exact (Number.not_lt_iff rfl rfl).mp rfl

def dialOffset : Range Float where
  low := some (.int (-2))
  high := none
  finite_low := by
    rintro l ⟨⟩
    rfl
  finite_high := by simp
  ordered := by simp

private theorem dial_schematic : dial.Schematic where
  names := by decide
  numbers := by
    intro s hs hkind
    simp only [dial, List.mem_cons, List.not_mem_nil, or_false] at hs
    rcases hs with rfl | rfl | rfl
    · exact ⟨dialLevel, .int 20, ⟨rfl, rfl, rfl, rfl⟩⟩
    · exact ⟨dialOffset, .real (-Scalar.decimal 25 1), ⟨rfl, rfl, rfl, rfl⟩⟩
    · cases hkind
  texts := by
    intro s hs hkind
    simp only [dial, List.mem_cons, List.not_mem_nil, or_false] at hs
    rcases hs with rfl | rfl | rfl
    · exact absurd rfl hkind
    · exact absurd rfl hkind
    · exact ⟨_, rfl⟩

theorem dial_meets_schema :
    dial.Schematic ∧
      (dial.resolve ((some [("message", .null), ("level", .text " 1_0 "), ("offset", .bool true),
        ("other", .int 3)] : Option (Fields Float)).getD [])).2 =
          .ok [("level", .int 10), ("offset", .int (-2)), ("message", .text "Hello!")] ∧
      (dial.resolve [("level", .int 10), ("offset", .int (-2)), ("message", .text "Hello!")]).2 =
        .ok [("level", .int 10), ("offset", .int (-2)), ("message", .text "Hello!")] := by
  have hresolve : (dial.resolve ((some [("message", .null), ("level", .text " 1_0 "), ("offset", .bool true),
      ("other", .int 3)] : Option (Fields Float)).getD [])).2 =
        .ok [("level", .int 10), ("offset", .int (-2)), ("message", .text "Hello!")] := by rfl
  exact ⟨dial_schematic, hresolve, (resolve_meets_schema dial_schematic _ hresolve).2.2.2.2⟩

end BlockType

end SpriteStage
