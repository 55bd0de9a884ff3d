/-!
Lookarounds test what comes after or before a place in the text without moving on. They differ in
direction and in whether the test has to fail.
-/

namespace RegexEngine

inductive LookKind
  | ahead | notAhead | behind | notBehind
deriving DecidableEq, Repr

namespace LookKind

/-- True for lookarounds whose body ends at the current place. -/
def isBehind : LookKind → Bool
  | behind | notBehind => true
  | ahead | notAhead => false

/-- True for lookarounds that succeed when their body fails. -/
def isNegative : LookKind → Bool
  | notAhead | notBehind => true
  | ahead | behind => false

def opening : LookKind → String
  | ahead => "?="
  | notAhead => "?!"
  | behind => "?<="
  | notBehind => "?<!"

def name : LookKind → String
  | ahead => "ahead"
  | notAhead => "not_ahead"
  | behind => "behind"
  | notBehind => "not_behind"

def all : List LookKind := [ahead, notAhead, behind, notBehind]

def ofName? (wanted : String) : Option LookKind := all.find? fun kind => kind.name == wanted

end LookKind

end RegexEngine
