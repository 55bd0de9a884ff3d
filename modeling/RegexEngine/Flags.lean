import RegexEngine.Text.Unicode
import RegexEngine.Text.Basic

/-!
Flags of patterns. A set of flags is a word of 32 bits, so that it can be stored with a compiled
pattern. Twelve of the bits have a meaning and a name; the others are kept as they are and ignored.
-/

namespace RegexEngine

/-- Settings that decide how a pattern is read, compiled and matched. -/
structure Flags where
  bits : UInt32
deriving DecidableEq, Repr, Inhabited

namespace Flags

def empty : Flags := ⟨0⟩

def nocase : Flags := ⟨0x1⟩
/-- The caret and the dollar sign match at the ends of lines. -/
def multiline : Flags := ⟨0x2⟩
def dotAll : Flags := ⟨0x4⟩
/-- White space and comments in a pattern are skipped. -/
def extended : Flags := ⟨0x8⟩
/-- A match has to start where the search starts. -/
def anchored : Flags := ⟨0x10⟩
/-- Repetitions are lazy unless they are marked. -/
def ungreedy : Flags := ⟨0x40⟩
/-- Inputs are Unicode texts. They always are. -/
def unicode : Flags := ⟨0x80⟩
/-- Errors in a pattern are recorded, and the parts around them are used. -/
def recovery : Flags := ⟨0x1000⟩
/-- Escapes that are not needed are refused. -/
def strict : Flags := ⟨0x08000000⟩
/-- The automaton is simplified after it was compiled. -/
def optimized : Flags := ⟨0x20000000⟩
/-- Patterns may be written as raw literals. -/
def rawLiterals : Flags := ⟨0x40000000⟩
/-- The automaton is made deterministic. -/
def deterministic : Flags := ⟨0x80000000⟩

def union (a b : Flags) : Flags := ⟨a.bits ||| b.bits⟩

def without (a b : Flags) : Flags := ⟨a.bits &&& (b.bits ^^^ 0xFFFFFFFF)⟩

/-- True when every flag of the second set is in the first. -/
def contains (a b : Flags) : Bool := a.bits &&& b.bits == b.bits

def isEmpty (a : Flags) : Bool := a.bits == 0

def named : List (String × Flags) :=
  [("CASE_INSENSITIVE", nocase), ("MULTILINE", multiline), ("DOTALL", dotAll),
   ("EXTENDED", extended), ("ANCHORED", anchored), ("UNGREEDY", ungreedy), ("UTF8", unicode),
   ("ERROR_RECOVERY", recovery), ("STRICT", strict), ("OPTIMIZE", optimized),
   ("RIFT_SYNTAX", rawLiterals), ("USE_DFA", deterministic)]

def known : Flags := named.foldl (fun all (_, flag) => all.union flag) empty

/-- The flags with these bits, if each of them has a meaning. -/
def ofBits? (bits : UInt32) : Option Flags :=
  if known.contains ⟨bits⟩ then some ⟨bits⟩ else none

def ofLetter? : Char → Option Flags
  | 'i' => some nocase
  | 'm' => some multiline
  | 's' => some dotAll
  | 'x' => some extended
  | 'U' => some ungreedy
  | 'X' => some strict
  | 'r' => some rawLiterals
  | _ => none

/-- The flags that modifier letters stand for, or the first letter that stands for none. -/
def ofLetters (letters : List Char) : Except Char Flags :=
  letters.foldlM (fun flags c =>
    match ofLetter? c with
    | some flag => .ok (flags.union flag)
    | none => .error c) empty

/-- The flag with a name. White space around the name, the mark that names of flags may begin with,
and the case of its letters do not count. -/
def ofName? (name : String) : Option Flags :=
  let trimmed := Text.trim name.toList
  let bare := (Text.strip? "RIFT_FLAG_".toList trimmed).getD trimmed
  let capital := bare.map Text.asciiCapital
  (named.find? fun (known, _) => known.toList == capital).map (·.2)

def names (flags : Flags) : List String :=
  (named.filter fun (_, flag) => flags.contains flag).map (·.1)

def text (flags : Flags) : String :=
  if flags.isEmpty then "NONE" else Text.joinWith "|" flags.names

end Flags

end RegexEngine
