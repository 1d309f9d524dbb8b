import Mathlib.Data.Nat.Digits.Defs
import SpriteStage.Catalog
import SpriteStage.Scalar.Binary64
/-! # Spelled integers -/
namespace SpriteStage

namespace Numeral

/-- The characters that write a row of digits, one underscore or none between any two of them. -/
inductive DigitRow : List Char → List Nat → Prop where
  | last {c : Char} {d : Nat} (digit : Text.digit? c = some d) : DigitRow [c] [d]
  | next {c : Char} {d : Nat} {cs : List Char} {ds : List Nat} (digit : Text.digit? c = some d)
      (row : DigitRow cs ds) : DigitRow (c :: cs) (d :: ds)
  | spaced {c : Char} {d : Nat} {cs : List Char} {ds : List Nat} (digit : Text.digit? c = some d)
      (row : DigitRow cs ds) : DigitRow (c :: '_' :: cs) (d :: ds)

/-- The characters that write a sign, and whether it is negative. -/
inductive SignMark : List Char → Bool → Prop where
  | none : SignMark [] false
  | plus : SignMark ['+'] false
  | minus : SignMark ['-'] true

/-- A text that spells an integer: a sign and at most 4300 digits, the first one counting most, with white space
around them. -/
inductive Spells : String → Int → Prop where
  | mk (before after : List Char) {mark row : List Char} {negative : Bool} {ds : List Nat}
      (space : ∀ c ∈ before ++ after, Text.isBlank c = true) (sign : SignMark mark negative)
      (digits : DigitRow row ds) (short : ds.length ≤ 4300) :
      Spells (String.ofList (before ++ (mark ++ row) ++ after))
        (if negative then -((Nat.ofDigits 10 ds.reverse : Nat) : Int) else (Nat.ofDigits 10 ds.reverse : Nat))

/-! ## Digits -/

private theorem ofDigits_eq (ds : List Nat) : ofDigits ds = Nat.ofDigits 10 ds.reverse := by
  rw [Nat.ofDigits_eq_foldr, List.foldr_reverse]
  simp only [ofDigits, Nat.add_comm, Nat.cast_id]

private theorem isBlank_of_digit {c : Char} {d : Nat} (h : Text.digit? c = some d) : Text.isBlank c = false := by
  have htable : ∀ z ∈ Text.zeros, ∀ k < 10, Text.isBlank (Char.ofNat (z + k)) = false := by decide +kernel
  obtain ⟨z, hz, -⟩ := Option.map_eq_some_iff.mp h
  have hrange := List.find?_some hz
  simp only [Bool.and_eq_true, decide_eq_true_eq] at hrange
  have hc := htable z (List.mem_of_find?_eq_some hz) (c.toNat - z) (by omega)
  rwa [Nat.add_sub_cancel' hrange.1, Char.ofNat_toNat] at hc

namespace DigitRow

variable {cs : List Char} {ds : List Nat}

private theorem first (h : DigitRow cs ds) : ∃ c rest d, cs = c :: rest ∧ Text.digit? c = some d := by
  cases h with
  | last digit => exact ⟨_, _, _, rfl, digit⟩
  | next digit _ => exact ⟨_, _, _, rfl, digit⟩
  | spaced digit _ => exact ⟨_, _, _, rfl, digit⟩

private theorem final (h : DigitRow cs ds) : ∃ front c d, cs = front ++ [c] ∧ Text.digit? c = some d := by
  induction h with
  | last digit => exact ⟨[], _, _, rfl, digit⟩
  | @next c _ _ _ _ _ ih =>
    obtain ⟨front, c', d', rfl, hdigit⟩ := ih
    exact ⟨c :: front, c', d', rfl, hdigit⟩
  | @spaced c _ _ _ _ _ ih =>
    obtain ⟨front, c', d', rfl, hdigit⟩ := ih
    exact ⟨c :: '_' :: front, c', d', rfl, hdigit⟩

private theorem snoc (h : DigitRow cs ds) {c : Char} {d : Nat} (hdigit : Text.digit? c = some d) :
    DigitRow (cs ++ [c]) (ds ++ [d]) := by
  induction h with
  | last digit => exact .next digit (.last hdigit)
  | next digit _ ih => exact .next digit ih
  | spaced digit _ ih => exact .spaced digit ih

private theorem read (h : DigitRow cs ds) : digits? cs = some ds := by
  have hunderscore : Text.digit? '_' = none := by decide
  induction h with
  | last digit => simp [digits?, digit]
  | next digit row ih =>
    obtain ⟨c, rest, d, rfl, hdigit⟩ := row.first
    have hne : c ≠ '_' := by
      rintro rfl
      rw [hunderscore] at hdigit
      cases hdigit
    rw [digits?, digit]
    simp only [if_neg hne, ih, Option.map_some]
  | spaced digit row ih =>
    rw [digits?, digit]
    simp only [if_true, ih, Option.map_some]

end DigitRow

/-! ## Integers -/

private theorem trim_surrounded {p : Char → Bool} {before core after : List Char} {first last : Char}
    {rest : List Char}
    (front : List Char) (hspace : ∀ c ∈ before ++ after, p c = true) (hfirst : core = first :: rest)
    (hlast : core = front ++ [last]) (hp : p first = false) (hp' : p last = false) :
    Text.trim p (before ++ core ++ after) = core := by
  have hdrop : ∀ (blanks cs : List Char) (c : Char), (∀ x ∈ blanks, p x = true) → p c = false →
      (blanks ++ c :: cs).dropWhile p = c :: cs := by
    intro blanks cs c hblanks hc
    rw [List.dropWhile_append_of_pos hblanks]
    simp [hc]
  obtain ⟨hbefore, hafter⟩ := List.forall_mem_append.mp hspace
  unfold Text.trim
  rw [List.append_assoc, hfirst, List.cons_append, hdrop before _ first hbefore hp, ← List.cons_append, ← hfirst,
    hlast, List.reverse_append, List.reverse_append, List.reverse_singleton, List.singleton_append,
    hdrop after.reverse _ last (by simpa using hafter) hp', List.reverse_cons, List.reverse_reverse]

/-- What is left of a spelled integer without the white space around it is read as the integer. -/
theorem integer?_trim {text : String} {n : Int} (h : Spells text n) :
    integer? (Text.trim Text.isBlank text.toList) = some n := by
  obtain ⟨before, after, hspace, hsign, hrow, hshort⟩ := h
  rename_i mark row negative ds
  obtain ⟨c, rest, d, hfirst, hdigit⟩ := hrow.first
  obtain ⟨front, c', d', hlast, hdigit'⟩ := hrow.final
  have hlastBlank := isBlank_of_digit hdigit'
  have htrim : Text.trim Text.isBlank (before ++ (mark ++ row) ++ after) = mark ++ row := by
    cases hsign with
    | none => exact trim_surrounded front hspace hfirst hlast (isBlank_of_digit hdigit) hlastBlank
    | plus =>
      exact trim_surrounded ('+' :: front) hspace rfl (by rw [hlast]; rfl) (by decide) hlastBlank
    | minus =>
      exact trim_surrounded ('-' :: front) hspace rfl (by rw [hlast]; rfl) (by decide) hlastBlank
  have hsplit : sign (mark ++ row) = (negative, row) := by
    cases hsign with
    | none =>
      subst hfirst
      have hminus : Text.digit? '-' = none := by decide
      have hplus : Text.digit? '+' = none := by decide
      unfold sign
      split
      · simp_all
      · simp_all
      · rfl
    | plus => rfl
    | minus => rfl
  rw [String.toList_ofList, htrim, integer?, hsplit]
  dsimp only
  rw [hrow.read]
  dsimp only
  rw [if_pos (show ds.length ≤ digitLimit from hshort), ofDigits_eq]

/-! ## Printed integers -/

/-- The digits that a number is printed with are a row that is worth the number. -/
theorem digitRow_toDigits (m : Nat) :
    ∃ ds, DigitRow (Nat.toDigits 10 m) ds ∧ Nat.ofDigits 10 ds.reverse = m ∧
      ∀ k, 0 < k → m < 10 ^ k → ds.length ≤ k := by
  have hdigit : ∀ d < 10, Text.digit? d.digitChar = some d := by decide
  have hrow : ∃ ds, DigitRow (Nat.toDigits 10 m) ds ∧ Nat.ofDigits 10 ds.reverse = m ∧
      ds.length = (Nat.toDigits 10 m).length := by
    induction m using Nat.strong_induction_on with
    | _ m ih =>
      by_cases hm : m < 10
      · rw [Nat.toDigits_of_lt_base hm]
        exact ⟨[m], .last (hdigit m hm), by simp, rfl⟩
      · obtain ⟨ds, hrow, hvalue, hlength⟩ := ih (m / 10) (by omega)
        rw [Nat.toDigits_of_base_le (by decide) (by omega)]
        refine ⟨ds ++ [m % 10], hrow.snoc (hdigit _ (Nat.mod_lt _ (by decide))), ?_, by simp [hlength]⟩
        rw [List.reverse_append, List.reverse_singleton, List.singleton_append, Nat.ofDigits_cons, hvalue]
        exact Nat.mod_add_div m 10
  obtain ⟨ds, hrow, hvalue, hlength⟩ := hrow
  refine ⟨ds, hrow, hvalue, fun k hk hm => ?_⟩
  rw [hlength]
  exact (Nat.length_toDigits_le_iff (by decide) hk).mpr hm

private theorem spells_toString {n : Int} (h : n.natAbs < 10 ^ 4300) : Spells (toString n) n := by
  have hprinted : ∀ {mark : List Char} {negative : Bool}, SignMark mark negative → ∀ m < 10 ^ 4300,
      Spells (String.ofList (mark ++ Nat.toDigits 10 m)) (if negative then -(m : Int) else m) := by
    intro mark negative hmark m hm
    obtain ⟨ds, hrow, hvalue, hlength⟩ := digitRow_toDigits m
    have hshort : ds.length ≤ 4300 := hlength 4300 (by decide) hm
    have hspells := Spells.mk [] [] (by simp) hmark hrow hshort
    rw [hvalue, List.nil_append, List.append_nil] at hspells
    exact hspells
  cases n with
  | ofNat m =>
    have hspells := hprinted .none m h
    rwa [List.nil_append, ← Nat.toString_eq_ofList_toDigits] at hspells
  | negSucc m =>
    have hspells := hprinted .minus (m + 1) h
    rw [List.singleton_append, String.ofList_cons, ← Nat.toString_eq_ofList_toDigits] at hspells
    exact hspells

end Numeral

namespace InputSpec

variable {α : Type} [Scalar α]

/-- A number input that is given a text that spells an integer reads that integer, and so does what it does with
the integer itself: it notes nothing, and comes to the same value or fails in the same way. A printed integer is
such a text unless it is too long. -/
theorem coerce_spelled (s : InputSpec α) :
    (∀ (text : String) (n : Int), Numeral.Spells text n →
      (.text text : Value α).inputNumber? = some (.int n) ∧
        s.coerce (.text text) = ([], s.bound (.int n)) ∧ s.coerce (.text text) = s.coerce (.int n)) ∧
    ∀ n : Int, n.natAbs < 10 ^ 4300 →
      s.coerce (.text (toString n)) = ([], s.bound (.int n)) ∧
        s.coerce (.text (toString n)) = s.coerce (.int n) := by
  have hread : ∀ {text : String} {n : Int}, Numeral.Spells text n →
      (.text text : Value α).inputNumber? = some (.int n) := by
    intro text n h
    simp [Value.inputNumber?, Value.numeral?, Numeral.integer?_trim h]
  have hbound : ∀ {text : String} {n : Int}, Numeral.Spells text n →
      s.coerce (.text text) = ([], s.bound (.int n)) := by
    intro text n h
    rw [coerce, hread h]
    rfl
  have hint : ∀ n : Int, s.coerce (.int n) = ([], s.bound (.int n)) := fun n => rfl
  refine ⟨fun text n h => ⟨hread h, hbound h, (hbound h).trans (hint n).symm⟩, fun n hn => ?_⟩
  have hprinted := hbound (Numeral.spells_toString hn)
  exact ⟨hprinted, hprinted.trans (hint n).symm⟩

theorem coerce_spelled_twelve :
    Numeral.Spells "\u2003-٠1_۲\n\x1c" (-12) ∧
      (Catalog.natural "seconds" 1 : InputSpec Float).coerce (.text "\u2003-٠1_۲\n\x1c") =
        ([], (Catalog.natural "seconds" 1).bound (.int (-12))) ∧
      (Catalog.natural "seconds" 1 : InputSpec Float).coerce (.text "\u2003-٠1_۲\n\x1c") =
        (Catalog.natural "seconds" 1).coerce (.int (-12)) ∧
      Int.natAbs (-12) < 10 ^ 4300 ∧
      (Catalog.natural "seconds" 1 : InputSpec Float).coerce (.text "-12") =
        ([], (Catalog.natural "seconds" 1).bound (.int (-12))) ∧
      (Catalog.natural "seconds" 1 : InputSpec Float).coerce (.text "-12") =
        (Catalog.natural "seconds" 1).coerce (.int (-12)) := by
  have hdigits : Numeral.DigitRow ['٠', '1', '_', '۲'] [0, 1, 2] :=
    .next (by decide) (.spaced (by decide) (.last (by decide)))
  have hspells : Numeral.Spells "\u2003-٠1_۲\n\x1c" (-12) :=
    .mk ['\u2003'] ['\n', '\x1c'] (List.all_eq_true.mp (by decide)) .minus hdigits (by decide)
  have hpower : ∀ k, 2 ≤ k → Int.natAbs (-12) < 10 ^ k := fun k hk =>
    lt_of_lt_of_le (by decide : 12 < 10 ^ 2) (Nat.pow_le_pow_right (by decide) hk)
  have hshort := hpower 4300 (by decide)
  obtain ⟨hspelled, hprinted⟩ := coerce_spelled (Catalog.natural "seconds" 1 : InputSpec Float)
  obtain ⟨-, hbound, hsame⟩ := hspelled _ _ hspells
  obtain ⟨hbound', hsame'⟩ := hprinted (-12) hshort
  exact ⟨hspells, hbound, hsame, hshort, hbound', hsame'⟩

end InputSpec

end SpriteStage
