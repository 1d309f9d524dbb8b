/-!
# Surrogates

Nearly all codes are characters, but a character beyond 16 bits is written as a high and a low
half in 16-bit units, and a document may hold a half that stands alone, which is no character. So
a string spells a text: a half is spelled by a mark and a stand-in, the mark itself is spelled
twice, and every other code by its character.
-/
namespace SpriteStage.Text

def isHighHalf (n : Nat) : Bool :=
  decide (0xD800 ≤ n) && decide (n < 0xDC00)

def isLowHalf (n : Nat) : Bool :=
  decide (0xDC00 ≤ n) && decide (n < 0xE000)

def isHalf (n : Nat) : Bool :=
  isHighHalf n || isLowHalf n

def joinHalves (high low : Nat) : Nat :=
  0x10000 + (high - 0xD800) * 0x400 + (low - 0xDC00)

/-- The first number that is no code. -/
def codeLimit : Nat := 0x110000

/-- The code of the mark, the last of all codes. -/
def markCode : Nat := 0x10FFFF

/-- What stands before the stand-in of a half. -/
def mark : Char := Char.ofNat markCode

/-- How far a half is moved up to become its stand-in. -/
def standInShift : Nat := 0x100000

def spell (n : Nat) : List Char :=
  if isHalf n then [mark, Char.ofNat (standInShift + n)]
  else if n = markCode then [mark, mark]
  else [Char.ofNat n]

def spellAll (ns : List Nat) : List Char :=
  ns.flatMap spell

/-- The code that a character spells after the mark. -/
def markedCode (c : Char) : Nat :=
  if c = mark then markCode else c.toNat - standInShift

def codes : List Char → List Nat
  | [] => []
  | [c] => [c.toNat]
  | c :: d :: rest =>
    if c = mark then markedCode d :: codes rest else c.toNat :: codes (d :: rest)

def codesOf (s : String) : List Nat :=
  codes s.toList

def length (s : String) : Nat :=
  (codesOf s).length

/-- Whether a text comes before another, by the first codes that differ. -/
def before (s t : String) : Bool :=
  decide (codesOf s < codesOf t)

/-- Halves side by side in a text. -/
structure HalfRun where
  first : Nat
  start : Nat
  length : Nat
deriving DecidableEq, Repr

def halfRun? (ns : List Nat) : Option HalfRun :=
  match ns.dropWhile (!isHalf ·) with
  | [] => none
  | half :: rest =>
    some ⟨half, (ns.takeWhile (!isHalf ·)).length, (rest.takeWhile isHalf).length + 1⟩

/-- The first halves in a text; it has an encoding if there are none. -/
def halves? (s : String) : Option HalfRun :=
  halfRun? (codesOf s)

private theorem toNat_ofNat_of_isValidChar {n : Nat} (h : n.isValidChar) :
    (Char.ofNat n).toNat = n := by
  rw [Char.ofNat, dif_pos h]
  rfl

private theorem isValidChar_of_not_half {n : Nat} (h : n < codeLimit) (hn : isHalf n = false) :
    n.isValidChar := by
  simp only [isHalf, isHighHalf, isLowHalf, Bool.or_eq_false_iff, Bool.and_eq_false_iff,
    decide_eq_false_iff_not] at hn
  simp only [Nat.isValidChar, codeLimit] at *
  omega

private theorem toNat_mark : mark.toNat = markCode := by decide

private theorem ne_mark_of_toNat {c : Char} (h : c.toNat ≠ markCode) : c ≠ mark :=
  fun e => h (e ▸ toNat_mark)

private theorem codes_spell_append {n : Nat} (h : n < codeLimit) (cs : List Char) :
    codes (spell n ++ cs) = n :: codes cs := by
  unfold spell
  split
  · next half =>
    have bounds : 0xD800 ≤ n ∧ n < 0xE000 := by
      simp only [isHalf, isHighHalf, isLowHalf, Bool.or_eq_true, Bool.and_eq_true,
        decide_eq_true_eq] at half
      omega
    have stands : (Char.ofNat (standInShift + n)).toNat = standInShift + n := by
      apply toNat_ofNat_of_isValidChar
      simp only [Nat.isValidChar, standInShift]
      omega
    have other : Char.ofNat (standInShift + n) ≠ mark := by
      apply ne_mark_of_toNat
      rw [stands]
      simp only [standInShift, markCode]
      omega
    simp [codes, markedCode, other, stands]
  · next half =>
    split
    · next e => simp [codes, markedCode, e]
    · next ne =>
      have same : (Char.ofNat n).toNat = n :=
        toNat_ofNat_of_isValidChar (isValidChar_of_not_half h (by simpa using half))
      have other : Char.ofNat n ≠ mark := ne_mark_of_toNat (by rwa [same])
      cases cs with
      | nil => simp [codes, same]
      | cons d rest => simp [codes, other, same]

theorem codes_spellAll {ns : List Nat} (h : ∀ n ∈ ns, n < codeLimit) :
    codes (spellAll ns) = ns := by
  induction ns with
  | nil => rfl
  | cons n rest ih =>
    rw [spellAll, List.flatMap_cons, codes_spell_append (h n List.mem_cons_self)]
    exact congrArg (n :: ·) (ih fun m hm => h m (List.mem_cons_of_mem n hm))

end SpriteStage.Text
