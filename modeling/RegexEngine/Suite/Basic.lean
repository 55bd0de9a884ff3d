import RegexEngine.Text.Basic

/-!
Suites of patterns and test cases for them. A suite declares named patterns with the names of their
flags, and test cases that say what a pattern must match, or must not. All places are byte offsets
of the text that a suite was read from.
-/

namespace RegexEngine

structure Span where
  start : Nat
  stop : Nat
deriving DecidableEq, Repr

namespace Span

def through (first last : Span) : Span := ⟨first.start, last.stop⟩

def text (s : Span) : String := "[" ++ toString s.start ++ ".." ++ toString s.stop ++ "]"

end Span

structure Declaration where
  name : String
  source : String
  /-- The names of the flags, as they were written. -/
  flags : List String
  span : Span
deriving DecidableEq, Repr

structure TestCase where
  input : String
  expectMatch : Bool
  /-- What the groups are to take, from the first one on. Nothing is expected of them if this is
  empty. -/
  groups : List String
  /-- The place of the pattern in the suite. -/
  pattern : Nat
  span : Span
deriving DecidableEq, Repr

/-- Patterns and test cases in the order in which they were declared. -/
structure Suite where
  patterns : List Declaration
  cases : List TestCase
deriving DecidableEq, Repr

namespace Suite

def empty : Suite := ⟨[], []⟩

def indexOf? (s : Suite) (name : String) : Option Nat := s.patterns.findIdx? (·.name == name)

def casesOf (s : Suite) (index : Nat) : List TestCase := s.cases.filter (·.pattern == index)

end Suite

inductive SuiteFault
  | unexpectedToken (found expected : String) | unexpectedEnd (expected : String)
  | unterminatedString | invalidEscape (escape : String) | unknownDirective (name : String)
  | flagsWithoutPattern | caseWithoutPattern | unknownPattern (name : String)
  | duplicatePattern (name : String) | unknownField (name : String) | duplicateField (name : String)
  | missingInput | sourceTooLarge
deriving DecidableEq, Repr

namespace SuiteFault

def name : SuiteFault → String
  | unexpectedToken _ _ => "UnexpectedToken"
  | unexpectedEnd _ => "UnexpectedEof"
  | unterminatedString => "UnterminatedString"
  | invalidEscape _ => "InvalidEscape"
  | unknownDirective _ => "UnknownDirective"
  | flagsWithoutPattern => "FlagsWithoutPattern"
  | caseWithoutPattern => "TestCaseWithoutPattern"
  | unknownPattern _ => "UnknownPattern"
  | duplicatePattern _ => "DuplicatePattern"
  | unknownField _ => "UnknownField"
  | duplicateField _ => "DuplicateField"
  | missingInput => "MissingInput"
  | sourceTooLarge => "SourceTooLarge"

def message : SuiteFault → String
  | unexpectedToken found expected => "unexpected " ++ found ++ ", expected " ++ expected
  | unexpectedEnd expected => "unexpected end of file, expected " ++ expected
  | unterminatedString => "unterminated string"
  | invalidEscape escape => "invalid escape sequence `" ++ escape ++ "`"
  | unknownDirective name => "unknown directive `" ++ name ++ "`"
  | flagsWithoutPattern => "`@flags` before any `@pattern`"
  | caseWithoutPattern => "test case before any `@pattern`"
  | unknownPattern name => "unknown pattern `" ++ name ++ "`"
  | duplicatePattern name => "duplicate pattern `" ++ name ++ "`"
  | unknownField name => "unknown test case field `" ++ name ++ "`"
  | duplicateField name => "duplicate test case field `" ++ name ++ "`"
  | missingInput => "test case without `input`"
  | sourceTooLarge => "source file is too large"

/-- What a report says about the place of a fault. -/
def label : SuiteFault → String
  | unexpectedToken _ _ => "unexpected token"
  | unexpectedEnd _ => "file ends here"
  | unterminatedString => "missing closing quote"
  | invalidEscape _ => "invalid escape"
  | unknownDirective _ => "unknown directive"
  | flagsWithoutPattern => "no pattern to apply these flags to"
  | caseWithoutPattern => "no pattern to test"
  | unknownPattern _ => "pattern not declared"
  | duplicatePattern _ => "pattern already declared"
  | unknownField _ => "unknown field"
  | duplicateField _ => "field already set"
  | missingInput => "this test case"
  | sourceTooLarge => ""

/-- What a report says below a fault. -/
def note : SuiteFault → Option String
  | invalidEscape _ =>
    some "valid escapes are \\n, \\r, \\t, \\0, \\\\, \\', \\\", \\xHH and \\u\x7bH...\x7d"
  | unknownField _ =>
    some "valid fields are `input`, `expect_match`, `match_groups` and `pattern`"
  | flagsWithoutPattern | caseWithoutPattern =>
    some "declare a pattern first with `@pattern NAME = \"...\"`"
  | _ => none

end SuiteFault

structure SuiteError where
  fault : SuiteFault
  span : Span
deriving DecidableEq, Repr

/-- A fault as those see it who wrote the suite: lines and columns count from 1, and columns count
characters. -/
structure LocatedError where
  error : SuiteError
  line : Nat
  column : Nat
deriving DecidableEq, Repr

namespace LocatedError

/-- Finds the line and the column of a place before which some characters stand. -/
def lineAndColumn : Nat → Nat → List Char → Nat × Nat
  | line, column, [] => (line, column)
  | line, column, c :: rest =>
    if c = '\n' then lineAndColumn (line + 1) 1 rest else lineAndColumn line (column + 1) rest

def locate (source : List Char) (e : SuiteError) : LocatedError :=
  let before := (Text.sliceBytes? source 0 e.span.start).getD source
  let (line, column) := lineAndColumn 1 1 before
  ⟨e, line, column⟩

def message (e : LocatedError) : String :=
  "line " ++ toString e.line ++ ", column " ++ toString e.column ++ ": " ++ e.error.fault.message

end LocatedError

end RegexEngine
