/-!
Texts as lists of characters, measured in bytes of UTF-8. The patterns and inputs of the engine are
addressed by byte offsets from outside; inside they are lists or arrays of characters. This module
holds the two directions of that correspondence, the searches that split a text at a mark, and the
readers and writers of plain numbers.

An offset that falls inside a character belongs to no place in the text: the functions that take
offsets answer with an option.
-/

namespace RegexEngine.Text

def byteLength : List Char → Nat
  | [] => 0
  | c :: rest => c.utf8Size + byteLength rest

/-- Splits a text at a byte offset, if a character starts or the text ends there. -/
def splitAtByte? : List Char → Nat → Option (List Char × List Char)
  | text, 0 => some ([], text)
  | [], _ + 1 => none
  | c :: rest, n + 1 =>
    if c.utf8Size ≤ n + 1 then
      (splitAtByte? rest (n + 1 - c.utf8Size)).map fun (before, after) => (c :: before, after)
    else none

def sliceBytes? (text : List Char) (start stop : Nat) : Option (List Char) := do
  if stop < start then none
  let (_, after) ← splitAtByte? text start
  let (found, _) ← splitAtByte? after (stop - start)
  pure found

/-- The longest beginning of a text that fits into a number of bytes. -/
def takeBytes : List Char → Nat → List Char
  | [], _ => []
  | c :: rest, n => if c.utf8Size ≤ n then c :: takeBytes rest (n - c.utf8Size) else []

def byteOffset (text : Array Char) (index : Nat) : Nat :=
  text.foldl (fun n c => n + c.utf8Size) 0 0 index

/-- Index of the character at a byte offset, if a character starts or the text ends there. -/
def indexOfByte? : List Char → Nat → Option Nat
  | _, 0 => some 0
  | [], _ + 1 => none
  | c :: rest, n + 1 =>
    if c.utf8Size ≤ n + 1 then (indexOfByte? rest (n + 1 - c.utf8Size)).map (· + 1) else none

/-- What follows `lead` in a text that begins with it. -/
def strip? : List Char → List Char → Option (List Char)
  | [], text => some text
  | _ :: _, [] => none
  | l :: lead, c :: text => if l == c then strip? lead text else none

def beginsWith (lead text : List Char) : Bool :=
  (strip? lead text).isSome

/-- What comes before the first `mark`, and what comes after it. -/
def splitAtChar? (mark : Char) : List Char → Option (List Char × List Char)
  | [] => none
  | c :: rest =>
    if c == mark then some ([], rest)
    else (splitAtChar? mark rest).map fun (before, after) => (c :: before, after)

def splitAtText? (mark : List Char) : List Char → Option (List Char × List Char)
  | [] => if mark.isEmpty then some ([], []) else none
  | c :: rest =>
    match strip? mark (c :: rest) with
    | some after => some ([], after)
    | none => (splitAtText? mark rest).map fun (before, after) => (c :: before, after)

/-- What stands between an opening and a closing character that the text begins and ends with. -/
def between? (opening closing : Char) (text : List Char) : Option (List Char) :=
  match text with
  | [] => none
  | c :: rest =>
    if c == opening && rest.getLast? == some closing then some rest.dropLast else none

def joinWith (separator : String) (parts : List String) : String :=
  separator.intercalate parts

/-- Value of a digit of base sixteen, in either case. -/
def hexDigit? (c : Char) : Option Nat :=
  let n := c.toNat
  if 0x30 ≤ n && n ≤ 0x39 then some (n - 0x30)
  else if 0x41 ≤ n && n ≤ 0x46 then some (n - 0x37)
  else if 0x61 ≤ n && n ≤ 0x66 then some (n - 0x57)
  else none

def isHexDigit (c : Char) : Bool :=
  (hexDigit? c).isSome

def isDigit (c : Char) : Bool :=
  0x30 ≤ c.toNat && c.toNat ≤ 0x39

/-- Value of a run of digits, each below the base. -/
def digitsValue? (base : Nat) (digits : List Char) : Option Nat :=
  digits.foldlM (fun value c => do
    let d ← hexDigit? c
    if d < base then some (value * base + d) else none) 0

/-- Reads an unsigned number: an optional plus sign and at least one digit. A number that exceeds
`largest` is refused. -/
def readNat? (base largest : Nat) (text : List Char) : Option Nat :=
  let digits := match text with
    | '+' :: rest => rest
    | _ => text
  if digits.isEmpty then none
  else (digitsValue? base digits).filter (· ≤ largest)

def maxWord32 : Nat := 0xFFFFFFFF

def maxWord64 : Nat := 0xFFFFFFFFFFFFFFFF

/-- Lowercase digits of a number in base sixteen, without leading zeros. -/
def hex (n : Nat) : String :=
  String.ofList (Nat.toDigits 16 n)

def padLeft (fill : Char) (width : Nat) (text : String) : String :=
  String.ofList (List.replicate (width - text.length) fill) ++ text

def hexPadded (width n : Nat) : String :=
  padLeft '0' width (hex n)

def utf8 (text : String) : List UInt8 :=
  text.toUTF8.toList

def ofUtf8? (bytes : List UInt8) : Option String :=
  String.fromUTF8? (ByteArray.mk bytes.toArray)

end RegexEngine.Text
