import RegexEngine.CharClass.Basic
import RegexEngine.LookKind
import RegexEngine.Error

/-!
Tokens of patterns. A token carries the bytes of the pattern that it covers. Malformed text becomes
a token too, which holds the error.
-/

namespace RegexEngine

/-- Assertions that are written as escapes. -/
inductive Assertion
  | inputStart | inputEnd | inputEndOrNewline | wordBoundary | notWordBoundary
deriving DecidableEq, Repr

def Assertion.letter : Assertion → Char
  | inputStart => 'A'
  | inputEnd => 'z'
  | inputEndOrNewline => 'Z'
  | wordBoundary => 'b'
  | notWordBoundary => 'B'

/-- Verbs that steer the search. -/
inductive Verb
  | fail | accept | commit
deriving DecidableEq, Repr

namespace Verb

def name : Verb → String
  | fail => "FAIL"
  | accept => "ACCEPT"
  | commit => "COMMIT"

def ofName? : String → Option Verb
  | "FAIL" | "F" => some fail
  | "ACCEPT" => some accept
  | "COMMIT" => some commit
  | _ => none

end Verb

inductive GroupRef
  | number (n : Nat)
  | name (text : String)
deriving DecidableEq, Repr

/-- What opens a group of a kind of its own. -/
inductive GroupOpening
  | plain
  | named (name : String)
  | look (kind : LookKind)
  | atomic
  | options (on off : String) (forGroup : Bool)
  | condition (ref : GroupRef)
  | lookCondition (kind : LookKind)
deriving DecidableEq, Repr

inductive TokenKind
  | char (c : Char)
  | perl (name : PerlClass) (negated : Bool)
  | property (text : String)
  | bracket (text : String)
  | dot | caret | dollar
  | assertion (a : Assertion)
  | star | plus | question | pipe
  | openCapture
  | openGroup (opening : GroupOpening)
  | close
  | counted (min : Nat) (max : Option Nat)
  | backref (number : Nat)
  | namedBackref (name : String)
  | comment (text : String)
  | verb (v : Verb)
  | rawMark
  | rawOpen (quote : Char)
  | rawClose (quote : Char)
  | rawModifiers (letters : String)
  | eof
  | error (e : Error)
deriving DecidableEq, Repr

/-- A token and the bytes that it covers. -/
structure Token where
  kind : TokenKind
  start : Nat
  stop : Nat
deriving DecidableEq, Repr

end RegexEngine
