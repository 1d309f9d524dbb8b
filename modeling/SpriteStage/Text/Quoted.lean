import SpriteStage.Text.Printable
import SpriteStage.Text.Surrogate
/-! # Quoted text -/
namespace SpriteStage.Text

def singleQuote : Char := '\x27'

def doubleQuote : Char := '\x22'

def quoteFor (cs : List Char) : Char :=
  if cs.contains singleQuote && !cs.contains doubleQuote then doubleQuote else singleQuote

/-- The lower-case hexadecimal digits of `n`, filled up with zeros. -/
def hex (width n : Nat) : List Char :=
  let ds := Nat.toDigits 16 n
  List.replicate (width - ds.length) '0' ++ ds

/-- The escape of a code that does not print, by its width. -/
def escape (n : Nat) : List Char :=
  if n < 0x100 then '\\' :: 'x' :: hex 2 n
  else if n < 0x10000 then '\\' :: 'u' :: hex 4 n
  else '\\' :: 'U' :: hex 8 n

/-- A code of a text between the given quotes. A half does not print. -/
def quoteCode (quote : Char) (n : Nat) : List Char :=
  let c := Char.ofNat n
  if isHalf n then escape n
  else if c = quote || c = '\\' then ['\\', c]
  else if c = '\t' then ['\\', 't']
  else if c = '\n' then ['\\', 'n']
  else if c = '\r' then ['\\', 'r']
  else if isPrintable c then [c]
  else escape n

def quoted (s : String) : String :=
  let quote := quoteFor s.toList
  String.ofList (quote :: (codesOf s).flatMap (quoteCode quote) ++ [quote])

end SpriteStage.Text
