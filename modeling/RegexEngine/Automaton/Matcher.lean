import RegexEngine.CharClass.Parser

/-!
What the text on a transition matches: a character of any kind, a character of a class, or a fixed
run of characters. A matcher can be asked about one character, tried at a place of an input, and, if
it takes exactly one character, turned into the set of the characters that it takes. The three views
agree.
-/

namespace RegexEngine

open Text (Cursor)

inductive Matcher
  /-- These characters, one after the other. -/
  | literal (chars : List Char) (nocase : Bool)
  /-- Any character, a line end only if `dotAll` says so. -/
  | any (dotAll : Bool)
  /-- A character of a class. -/
  | cls (set : CharClass) (nocase : Bool)
deriving DecidableEq, Repr

namespace Matcher

/-- What makes the rest of a label ignore case. -/
def nocaseMark : List Char := "(?i)".toList

/-- What makes the dot match line ends. -/
def dotAllMark : List Char := "(?s)".toList

/-- Strips the marks in front of a label. The fuel is the length of the label. -/
def stripMarks (nocase dotAll : Bool) : Nat → List Char → Bool × Bool × List Char
  | 0, text => (nocase, dotAll, text)
  | fuel + 1, text =>
    match Text.strip? nocaseMark text, Text.strip? dotAllMark text with
    | some rest, _ => stripMarks true dotAll fuel rest
    | none, some rest => stripMarks nocase true fuel rest
    | none, none => (nocase, dotAll, text)

/-- Reads the characters of a label. A class has to be all of the label. -/
def readChars (nocase : Bool) (whole : List Char) (first : Bool) :
    Nat → Cursor → Except Error Matcher
  | 0, _ => .ok (.literal [] nocase)
  | fuel + 1, cur =>
    let more := fun (c : Char) (after : Cursor) => do
      match ← readChars nocase whole false fuel after with
      | .literal chars nocase => pure (.literal (c :: chars) nocase)
      | other => pure other
    match cur.rest with
    | [] => .ok (.literal [] nocase)
    | '\\' :: _ =>
      match readEscape false (cur.drop 1) with
      | .error fault => .error (fault.errorAt 0)
      | .ok (.char c, after) => more c after
      | .ok (.item _, after) =>
        if first && after.atEnd then do pure (.cls (← CharClass.parseWith false whole) nocase)
        else .error CallFault.mixedLabel.error
    | c :: _ => more c (cur.drop 1)

def parse (label : List Char) : Except Error Matcher :=
  let (nocase, dotAll, rest) := stripMarks false false label.length label
  match rest with
  | [] => .error CallFault.emptyLabel.error
  | ['.'] => .ok (.any dotAll)
  | '[' :: _ => do pure (.cls (← CharClass.parseWith false rest) nocase)
  | rest => readChars nocase rest true (rest.length + 1) (.start rest)

def isSingle : Matcher → Bool
  | literal chars _ => chars.length == 1
  | _ => true

def matchesChar : Matcher → Char → Bool
  | literal [wanted] nocase, c => Text.sameChar wanted c nocase
  | literal _ _, _ => false
  | any dotAll, c => dotAll || c != '\n'
  | cls set nocase, c => set.contains c nocase

/-- Compares the characters of an input from a place on, and answers with the place after them. -/
def matchRun? (nocase : Bool) (input : Array Char) : List Char → Nat → Option Nat
  | [], position => some position
  | wanted :: rest, position =>
    match input[position]? with
    | some c =>
      if Text.sameChar wanted c nocase then matchRun? nocase input rest (position + 1) else none
    | none => none

/-- Tries the matcher at a place of an input, and answers with the place after what it takes. -/
def matchAt? (m : Matcher) (input : Array Char) (position : Nat) : Option Nat :=
  match m with
  | literal chars nocase => matchRun? nocase input chars position
  | m =>
    match input[position]? with
    | some c => if m.matchesChar c then some (position + 1) else none
    | none => none

/-- The characters that the matcher takes, if it takes one at a time. -/
def ranges? : Matcher → Option CharRanges
  | literal [c] nocase =>
    let others := if nocase then Text.caseVariants c else []
    some (others.foldl (fun r v => r.union (.single v)) (.single c))
  | literal _ _ => none
  | any true => some .all
  | any false => some (CharRanges.single '\n').negate
  | cls set nocase => some (set.ranges nocase)

end Matcher

end RegexEngine
