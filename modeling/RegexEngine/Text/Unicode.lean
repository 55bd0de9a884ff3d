import RegexEngine.Text.Letter
import RegexEngine.Text.Numeral
import RegexEngine.Text.Printable

/-!
Properties of characters. Each is a table of ranges of code points; the small ones are written here,
the large ones have modules of their own. Keeping the ranges, and not just the test, lets a class of
characters be computed with as a set.
-/

namespace RegexEngine.Text

def inRanges (ranges : List (Nat × Nat)) (n : Nat) : Bool :=
  ranges.any fun (first, last) => first ≤ n && n ≤ last

def blankRanges : List (Nat × Nat) :=
  [(0x09, 0x0D), (0x20, 0x20), (0x85, 0x85), (0xA0, 0xA0), (0x1680, 0x1680), (0x2000, 0x200A),
   (0x2028, 0x2029), (0x202F, 0x202F), (0x205F, 0x205F), (0x3000, 0x3000)]

def controlRanges : List (Nat × Nat) :=
  [(0x00, 0x1F), (0x7F, 0x9F)]

/-- True for letters of every script. -/
def isAlphabetic (c : Char) : Bool := inRanges alphabeticRanges c.toNat

def isNumeric (c : Char) : Bool := inRanges numericRanges c.toNat

def isAlphanumeric (c : Char) : Bool := isAlphabetic c || isNumeric c

def isBlank (c : Char) : Bool := inRanges blankRanges c.toNat

def isControl (c : Char) : Bool := inRanges controlRanges c.toNat

/-- True for characters that show themselves in a quoted text. -/
def isPrintable (c : Char) : Bool :=
  (c == ' ' || inRanges visibleRanges c.toNat) && !inRanges extenderRanges c.toNat

def isAsciiAlphanumeric (c : Char) : Bool :=
  let n := c.toNat
  (0x30 ≤ n && n ≤ 0x39) || (0x41 ≤ n && n ≤ 0x5A) || (0x61 ≤ n && n ≤ 0x7A)

def isAsciiLetter (c : Char) : Bool :=
  let n := c.toNat
  (0x41 ≤ n && n ≤ 0x5A) || (0x61 ≤ n && n ≤ 0x7A)

def isAsciiCapital (c : Char) : Bool :=
  0x41 ≤ c.toNat && c.toNat ≤ 0x5A

/-- The capital form of a letter of ASCII; other characters stay. -/
def asciiCapital (c : Char) : Char :=
  if 0x61 ≤ c.toNat && c.toNat ≤ 0x7A then Char.ofNat (c.toNat - 0x20) else c

def trim (text : List Char) : List Char :=
  ((text.dropWhile isBlank).reverse.dropWhile isBlank).reverse

end RegexEngine.Text
