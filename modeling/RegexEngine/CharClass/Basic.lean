import RegexEngine.CharRanges
import RegexEngine.Text.Case

/-!
Classes of characters: what a bracket expression such as `[a-z_]`, a letter class such as `\d` or a
Unicode property such as `\p{L}` stands for. A class can be asked about one character and turned
into a set of ranges; both views agree. The letter classes and the named classes in brackets are
ASCII only.
-/

namespace RegexEngine

/-- The classes that one letter names. -/
inductive PerlClass
  | digit | word | space
deriving DecidableEq, Repr

namespace PerlClass

/-- The class of a letter, and whether a capital letter asks for its complement. -/
def ofLetter? : Char → Option (PerlClass × Bool)
  | 'd' => some (digit, false)
  | 'D' => some (digit, true)
  | 'w' => some (word, false)
  | 'W' => some (word, true)
  | 's' => some (space, false)
  | 'S' => some (space, true)
  | _ => none

def name : PerlClass → String
  | digit => "digit"
  | word => "word"
  | space => "space"

def pairs : PerlClass → List (Nat × Nat)
  | digit => [(0x30, 0x39)]
  | word => [(0x30, 0x39), (0x41, 0x5A), (0x5F, 0x5F), (0x61, 0x7A)]
  | space => [(0x09, 0x0D), (0x20, 0x20)]

end PerlClass

/-- The named classes inside brackets. -/
inductive PosixClass
  | alnum | alpha | ascii | blank | cntrl | digit | graph | lower | print | punct | space | upper
  | word | xdigit
deriving DecidableEq, Repr

namespace PosixClass

def name : PosixClass → String
  | alnum => "alnum"
  | alpha => "alpha"
  | ascii => "ascii"
  | blank => "blank"
  | cntrl => "cntrl"
  | digit => "digit"
  | graph => "graph"
  | lower => "lower"
  | print => "print"
  | punct => "punct"
  | space => "space"
  | upper => "upper"
  | word => "word"
  | xdigit => "xdigit"

def all : List PosixClass :=
  [alnum, alpha, ascii, blank, cntrl, digit, graph, lower, print, punct, space, upper, word, xdigit]

def ofName? (wanted : String) : Option PosixClass :=
  all.find? fun known => known.name == wanted

def pairs : PosixClass → List (Nat × Nat)
  | alnum => [(0x30, 0x39), (0x41, 0x5A), (0x61, 0x7A)]
  | alpha => [(0x41, 0x5A), (0x61, 0x7A)]
  | ascii => [(0x00, 0x7F)]
  | blank => [(0x09, 0x09), (0x20, 0x20)]
  | cntrl => [(0x00, 0x1F), (0x7F, 0x7F)]
  | digit => [(0x30, 0x39)]
  | graph => [(0x21, 0x7E)]
  | lower => [(0x61, 0x7A)]
  | print => [(0x20, 0x7E)]
  | punct => [(0x21, 0x2F), (0x3A, 0x40), (0x5B, 0x60), (0x7B, 0x7E)]
  | space => [(0x09, 0x0D), (0x20, 0x20)]
  | upper => [(0x41, 0x5A)]
  | word => [(0x30, 0x39), (0x41, 0x5A), (0x5F, 0x5F), (0x61, 0x7A)]
  | xdigit => [(0x30, 0x39), (0x41, 0x46), (0x61, 0x66)]

end PosixClass

inductive UnicodeProperty
  | any | ascii | letter | uppercase | lowercase | number | alphanumeric | whiteSpace | control
deriving DecidableEq, Repr

namespace UnicodeProperty

/-- The property with a name. Most have several. -/
def ofName? : String → Option UnicodeProperty
  | "Any" => some any
  | "ASCII" | "Ascii" => some ascii
  | "L" | "Letter" | "Alpha" | "Alphabetic" => some letter
  | "Lu" | "Upper" | "Uppercase" => some uppercase
  | "Ll" | "Lower" | "Lowercase" => some lowercase
  | "N" | "Number" | "Numeric" => some number
  | "Alnum" | "Alphanumeric" => some alphanumeric
  | "Z" | "Space" | "White_Space" | "Whitespace" => some whiteSpace
  | "Cc" | "Control" => some control
  | _ => none

def name : UnicodeProperty → String
  | any => "any"
  | ascii => "ascii"
  | letter => "letter"
  | uppercase => "uppercase"
  | lowercase => "lowercase"
  | number => "number"
  | alphanumeric => "alphanumeric"
  | whiteSpace => "white_space"
  | control => "control"

def pairs : UnicodeProperty → List (Nat × Nat)
  | any => [(0, maxCodePoint)]
  | ascii => [(0x00, 0x7F)]
  | letter => Text.alphabeticRanges
  | uppercase => Text.uppercaseRanges
  | lowercase => Text.lowercaseRanges
  | number => Text.numericRanges
  | alphanumeric => Text.alphabeticRanges ++ Text.numericRanges
  | whiteSpace => Text.blankRanges
  | control => Text.controlRanges

end UnicodeProperty

inductive ClassItem
  /-- The characters from one to another. A single character is a range that ends where it starts.
  -/
  | range (first last : Char)
  /-- A class named by a letter, or its complement. -/
  | perl (name : PerlClass) (negated : Bool)
  /-- A class named inside brackets, or its complement. -/
  | posix (name : PosixClass) (negated : Bool)
  /-- A property of characters, or its complement. -/
  | property (name : UnicodeProperty) (negated : Bool)
deriving DecidableEq, Repr

namespace ClassItem

/-- The table of a part, and whether its complement is meant. -/
def table : ClassItem → List (Nat × Nat) × Bool
  | range first last => ([(first.toNat, last.toNat)], false)
  | perl name negated => (name.pairs, negated)
  | posix name negated => (name.pairs, negated)
  | property name negated => (name.pairs, negated)

def contains (item : ClassItem) (c : Char) : Bool :=
  let (pairs, negated) := item.table
  Text.inRanges pairs c.toNat != negated

def ranges (item : ClassItem) : CharRanges :=
  let (pairs, negated) := item.table
  let covered := CharRanges.ofPairs pairs
  if negated then covered.negate else covered

end ClassItem

/-- A class: the characters that some part covers, or all others. -/
structure CharClass where
  negated : Bool
  items : List ClassItem
deriving DecidableEq, Repr

namespace CharClass

def covers (cls : CharClass) (c : Char) : Bool :=
  cls.items.any (·.contains c)

/-- True when the class has the character. When case is ignored, the other cases of the character
count too. -/
def contains (cls : CharClass) (c : Char) (nocase : Bool) : Bool :=
  (cls.covers c || (nocase && (Text.caseVariants c).any cls.covers)) != cls.negated

/-- Each character that has other cases, with one of them. -/
def casePairs : List (Nat × Nat) :=
  Text.casedCodePoints.flatMap fun n =>
    (Text.caseVariants (Char.ofNat n)).map fun v => (n, v.toNat)

/-- A set with the characters that have another case in it. -/
def closeUnderCase (r : CharRanges) : CharRanges :=
  r.union ⟨(casePairs.filter fun (_, variant) => r.containsCode variant).map fun (n, _) => (n, n)⟩

def ranges (cls : CharClass) (nocase : Bool) : CharRanges :=
  let covered := CharRanges.ofPairs (cls.items.flatMap fun item => item.ranges.pairs)
  let closed := if nocase then closeUnderCase covered else covered
  if cls.negated then closed.negate else closed

end CharClass

end RegexEngine
