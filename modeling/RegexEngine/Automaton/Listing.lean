import RegexEngine.Automaton.Basic

/-!
Listings of automata: one line for each state with what marks it, followed by its transitions in the
order in which they are tried.
-/

namespace RegexEngine

def AutomatonKind.name : AutomatonKind → String
  | nfa => "NFA"
  | dfa => "DFA"

def Transition.listing (t : Transition) : String :=
  let label := match t.label with
    | some label => label.toString
    | none => "ε"
  "       " ++ label ++ " -> " ++ toString t.target ++ "\n"

namespace State

def groupText (s : State) : String :=
  match s.groupIndex with
  | some group =>
    (if s.opensGroup then " open(" ++ toString group ++ ")" else "")
      ++ (if s.closesGroup then " close(" ++ toString group ++ ")" else "")
  | none => ""

def listing (s : State) (index : Nat) (initial : Option Nat) : String :=
  let start := if initial = some index then " start" else ""
  let accept := if s.accepting then " accept" else ""
  let assertions :=
    if s.marks.hasAssertion then " StateFlags(" ++ s.marks.assertionText ++ ")" else ""
  let action := match s.action with
    | some action => " " ++ action.text
    | none => ""
  Text.padLeft ' ' 4 (toString index) ++ start ++ accept ++ s.groupText ++ assertions ++ action
    ++ "\n" ++ String.join (s.transitions.map Transition.listing)

end State

def Automaton.listing (a : Automaton) : String :=
  a.kind.name ++ " with " ++ toString a.stateCount ++ " states\n"
    ++ String.join ((a.states.toList.zipIdx).map fun (s, i) => s.listing i a.initial)

end RegexEngine
