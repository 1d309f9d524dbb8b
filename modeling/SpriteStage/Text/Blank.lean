/-!
# White space

Two classes of white space matter. `isSpace` is the Unicode property, which surrounds a numeral
without harm; `isBlank` adds the four information separators and is what trimming a text removes.
-/
namespace SpriteStage.Text

/-- White space by the Unicode property. -/
def isSpace (c : Char) : Bool :=
  let n := c.toNat
  (decide (9 ≤ n) && decide (n ≤ 13)) || n == 0x20 || n == 0x85 || n == 0xA0 || n == 0x1680
    || (decide (0x2000 ≤ n) && decide (n ≤ 0x200A)) || n == 0x2028 || n == 0x2029 || n == 0x202F
    || n == 0x205F || n == 0x3000

/-- White space or one of the information separators `U+001C` to `U+001F`. -/
def isBlank (c : Char) : Bool :=
  isSpace c || (decide (0x1C ≤ c.toNat) && decide (c.toNat ≤ 0x1F))

/-- The characters without those of a class at either end. -/
def trim (p : Char → Bool) (cs : List Char) : List Char :=
  ((cs.dropWhile p).reverse.dropWhile p).reverse

end SpriteStage.Text
