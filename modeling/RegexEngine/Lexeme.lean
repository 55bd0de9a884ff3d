import RegexEngine.Pattern.Basic

/-!
Patterns for the common parts of texts that are read token by token: names, numbers, strings,
comments and so on. They can be joined, one after the other or as alternatives, and continued with a
pattern of one's own. The patterns themselves are compiled together, when the first one is asked
for.
-/

namespace RegexEngine

/-- The parts of texts that there are patterns for. -/
inductive Lexeme
  /-- The empty text. -/
  | emptyState
  | whiteSpace
  | wordBoundary
  /-- A name of letters, digits and underscores. -/
  | identifier
  /-- A number, with or without sign, fraction and exponent. -/
  | numeric
  /-- A text in quotes of either kind, with escapes. -/
  | string
  /-- A comment up to the end of the line, or between marks. -/
  | comment
  | operator
  /-- A name with arguments in parentheses. The name is captured. -/
  | function
  /-- Two names with an arrow between them. Both are captured. -/
  | stateTransition
deriving DecidableEq, Repr

namespace Lexeme

def all : List Lexeme :=
  [emptyState, whiteSpace, wordBoundary, identifier, numeric, string, comment, operator, function,
   stateTransition]

def source : Lexeme → String
  | emptyState => ""
  | whiteSpace => "\\s+"
  | wordBoundary => "\\b"
  | identifier => "[a-zA-Z_][a-zA-Z0-9_]*"
  | numeric => "[-+]?(?:\\d+(?:\\.\\d*)?|\\.\\d+)(?:[eE][-+]?\\d+)?"
  | string => "\"(?:[^\"\\\\]|\\\\.)*\"|'(?:[^'\\\\]|\\\\.)*'"
  | comment => "//[^\\n]*|#[^\\n]*|/\\*(?:[^*]|\\*+[^*/])*\\*+/"
  | operator => "==|!=|<=|>=|&&|\\|\\||<<|>>|->|\\+\\+|--|[-+*/%=<>!&|^~]"
  | function => "([a-zA-Z_][a-zA-Z0-9_]*)\\s*\\([^()]*\\)"
  | stateTransition => "([a-zA-Z_][a-zA-Z0-9_]*)\\s*->\\s*([a-zA-Z_][a-zA-Z0-9_]*)"

def name : Lexeme → String
  | emptyState => "EMPTY_STATE"
  | whiteSpace => "WHITESPACE"
  | wordBoundary => "WORD_BOUNDARY"
  | identifier => "IDENTIFIER"
  | numeric => "NUMERIC"
  | string => "STRING"
  | comment => "COMMENT"
  | operator => "OPERATOR"
  | function => "FUNCTION"
  | stateTransition => "STATE_TRANSITION"

def number (l : Lexeme) : Nat := all.idxOf l

def ofNumber (number : Nat) : Except Error Lexeme :=
  match all[number]? with
  | some l => .ok l
  | none => .error (CallFault.unknownLexeme number).error

def group (source : String) : String := "(?:" ++ source ++ ")"

def compile (source : String) (flags : Flags) : Fresh (Except Error Pattern) :=
  Pattern.ofText source flags .default

/-- The pattern for any of some lexemes, the first ones first. -/
def anyOf (lexemes : List Lexeme) (flags : Flags) : Fresh (Except Error Pattern) :=
  if lexemes.isEmpty then pure (.error CallFault.nothingToCombine.error)
  else compile (Text.joinWith "|" (lexemes.map fun l => group l.source)) flags

def sequence (lexemes : List Lexeme) (flags : Flags) : Fresh (Except Error Pattern) :=
  if lexemes.isEmpty then pure (.error CallFault.nothingToSequence.error)
  else compile (String.join (lexemes.map fun l => group l.source)) flags

def followedBy (l : Lexeme) (rest : String) (flags : Flags) : Fresh (Except Error Pattern) :=
  compile (group l.source ++ group rest) flags

end Lexeme

/-- The patterns of all lexemes, in the order of their numbers, if they have been compiled. -/
structure LexemeStore where
  patterns : Option (List Pattern)

namespace LexemeStore

def empty : LexemeStore := ⟨none⟩

def isFilled (s : LexemeStore) : Bool := s.patterns.isSome

/-- Compiles the patterns of all lexemes, unless that was done before. -/
def fill (s : LexemeStore) : Fresh (Except Error LexemeStore) :=
  if s.isFilled then pure (.ok s)
  else
    let compiled := Lexeme.all.map fun l => Lexeme.compile l.source .empty
    Pattern.bindFresh (Pattern.sequenceFresh compiled) fun patterns => pure (.ok ⟨some patterns⟩)

/-- The pattern of a lexeme, and the store after it was filled if need be. -/
def get (s : LexemeStore) (l : Lexeme) : Fresh (Except Error (Pattern × LexemeStore)) :=
  Pattern.bindFresh s.fill fun s =>
  pure <|
    match s.patterns.bind (·[l.number]?) with
    | some p => .ok (p, s)
    | none => .error (.of (.custom .internal ("baseline pattern " ++ l.name ++ " missing")))

end LexemeStore

end RegexEngine
