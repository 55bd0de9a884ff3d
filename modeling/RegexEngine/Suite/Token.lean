import RegexEngine.Suite.Basic
import RegexEngine.Text.Unicode

/-!
Tokens of suites. Every part of a text belongs to a token: what fits nothing becomes an unknown
token, up to the next white space, or up to the end of the line if it looks like a string. The
longest token wins, and a word that is a keyword is that.
-/

namespace RegexEngine

inductive SuiteTokenKind
  | patternWord | flagsWord | caseWord | directive | trueWord | falseWord | name | text
  | comma | equal | openBrace | closeBrace | openBracket | closeBracket
  | comment | newline | blank | unknown
deriving DecidableEq, Repr

namespace SuiteTokenKind

def description : SuiteTokenKind → String
  | patternWord => "`@pattern`"
  | flagsWord => "`@flags`"
  | caseWord => "`@test_case`"
  | directive => "directive"
  | trueWord => "`true`"
  | falseWord => "`false`"
  | name => "identifier"
  | text => "string"
  | comma => "`,`"
  | equal => "`=`"
  | openBrace => "`\x7b`"
  | closeBrace => "`\x7d`"
  | openBracket => "`[`"
  | closeBracket => "`]`"
  | comment => "comment"
  | newline => "newline"
  | blank => "whitespace"
  | unknown => "unknown token"

/-- True for what only stands between other tokens. -/
def isTrivia : SuiteTokenKind → Bool
  | comment | newline | blank => true
  | _ => false

end SuiteTokenKind

structure SuiteToken where
  kind : SuiteTokenKind
  chars : List Char
  start : Nat
deriving DecidableEq, Repr

namespace SuiteToken

def span (t : SuiteToken) : Span := ⟨t.start, t.start + Text.byteLength t.chars⟩

def written (t : SuiteToken) : String := String.ofList t.chars

def isQuote (c : Char) : Bool := c == '"' || c == '\''

/-- True for what was meant as a string. -/
def looksLikeString (t : SuiteToken) : Bool := t.chars.head?.any isQuote

def startsName (c : Char) : Bool := c == '_' || Text.isAsciiLetter c

def isNameChar (c : Char) : Bool := c == '_' || Text.isAsciiAlphanumeric c

def wordKind (word : List Char) : SuiteTokenKind :=
  if word = "true".toList then .trueWord
  else if word = "false".toList then .falseWord
  else .name

def directiveKind (name : List Char) : SuiteTokenKind :=
  if name = "pattern".toList then .patternWord
  else if name = "flags".toList then .flagsWord
  else if name = "test_case".toList then .caseWord
  else .directive

/-- Number of characters up to the end of a string, from after its first quote. No line end stands
in a string. -/
def stringLength? (quote : Char) : List Char → Option Nat
  | [] => none
  | '\\' :: c :: rest => if c = '\n' then none else (stringLength? quote rest).map (· + 2)
  | c :: rest =>
    if c = quote then some 1
    else if c = '\n' ∨ c = '\\' then none
    else (stringLength? quote rest).map (· + 1)

def punctuation? : Char → Option SuiteTokenKind
  | ',' => some .comma
  | '=' => some .equal
  | '{' => some .openBrace
  | '}' => some .closeBrace
  | '[' => some .openBracket
  | ']' => some .closeBracket
  | '\n' => some .newline
  | _ => none

def isBlank (c : Char) : Bool := c == ' ' || c == '\t' || c == '\r'

/-- Number of characters that fit nothing, at the start of a text. There is at least one. -/
def unknownLength (c : Char) (rest : List Char) : Nat :=
  if isQuote c then 1 + (rest.takeWhile (· ≠ '\n')).length
  else max 1 ((c :: rest).takeWhile fun d => !Text.isBlank d).length

/-- The kind and the number of characters of the first token of a text. -/
def first (c : Char) (rest : List Char) : SuiteTokenKind × Nat :=
  let unknown := (SuiteTokenKind.unknown, unknownLength c rest)
  match punctuation? c with
  | some kind => (kind, 1)
  | none =>
    if isBlank c then (.blank, 1 + (rest.takeWhile isBlank).length)
    else if c = '#' then (.comment, 1 + (rest.takeWhile (· ≠ '\n')).length)
    else if startsName c then
      let word := c :: rest.takeWhile isNameChar
      (wordKind word, word.length)
    else if c = '@' then
      if rest.head?.any startsName then
        let name := rest.takeWhile isNameChar
        (directiveKind name, 1 + name.length)
      else unknown
    else if isQuote c then
      match stringLength? c rest with
      | some length => (.text, 1 + length)
      | none => unknown
    else unknown

/-- The tokens of a text that starts at an offset. The fuel is the length of the text. -/
def scan : Nat → Nat → List Char → List SuiteToken
  | 0, _, _ | _, _, [] => []
  | fuel + 1, start, c :: rest =>
    let (kind, length) := first c rest
    let chars := (c :: rest).take length
    ⟨kind, chars, start⟩ :: scan fuel (start + Text.byteLength chars) ((c :: rest).drop length)

def tokenize (source : List Char) : List SuiteToken := scan source.length 0 source

end SuiteToken

end RegexEngine
