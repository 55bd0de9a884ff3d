import RegexEngine.Automaton.State
import RegexEngine.Flags
import RegexEngine.Graph

/-!
Finite automata. An automaton is a list of states, and transitions name states by their place in it.
The nondeterministic ones come from patterns; the deterministic ones have no transitions without a
label, and no character leaves a state in two ways. The editing operations keep every transition
inside the automaton: one that fails changes nothing but the last error.

States are told apart by identifiers that come from a common counter, so that states of different
automata differ too. `Fresh` is a computation that can draw identifiers.
-/

namespace RegexEngine

/-- A computation that draws identifiers of states from a counter. -/
abbrev Fresh := StateM UInt32

def freshId : Fresh UInt32 := modifyGet fun n => (n, n + 1)

inductive AutomatonKind
  | nfa | dfa
deriving DecidableEq, Repr

/-- A finite automaton. The current state is where a walk by single characters stands. -/
structure Automaton where
  kind : AutomatonKind
  states : Array State
  initial : Option Nat
  current : Option Nat
  flags : Flags
  lastError : Option Error

namespace Automaton

def empty (kind : AutomatonKind) : Automaton := ⟨kind, #[], none, none, .empty, none⟩

def stateCount (a : Automaton) : Nat := a.states.size

def transitions (a : Automaton) : List Transition := a.states.toList.flatMap (·.transitions)

def transitionCount (a : Automaton) : Nat :=
  a.states.foldl (fun n s => n + s.transitions.length) 0

/-- The greatest number of a group that a state opens or closes. -/
def groupCount (a : Automaton) : Nat :=
  a.states.foldl (fun n s => max n (s.groupIndex.getD 0)) 0

def hasActions (a : Automaton) : Bool := a.states.any (·.action.isSome)

def findId? (a : Automaton) (id : UInt32) : Option Nat :=
  a.states.findIdx? (·.id == id)

def successors (a : Automaton) (s : Nat) : List Nat :=
  match a.states[s]? with
  | some state => state.successors
  | none => []

def epsilonTargets (a : Automaton) (s : Nat) : List Nat :=
  match a.states[s]? with
  | some state => state.epsilonTargets
  | none => []

/-- Adds a state, and answers with its place. -/
def addState (a : Automaton) (s : State) : Nat × Automaton :=
  (a.states.size, { a with states := a.states.push s })

def createState (a : Automaton) (accepting : Bool) : Fresh (Nat × Automaton) := do
  let id ← freshId
  pure (a.addState (.new id accepting))

def modifyState (a : Automaton) (index : Nat) (change : State → State) : Automaton :=
  { a with states := a.states.modify index change }

/-- Fails, and remembers why. -/
def refuse {α : Type} (a : Automaton) (e : Error) : Except Error α × Automaton :=
  (.error e, { a with lastError := some e })

def indexError (a : Automaton) (index : Nat) : Error :=
  (CallFault.stateIndex index a.stateCount).error

/-- Chooses the initial state, which becomes the current one too. -/
def setInitial (a : Automaton) (index : Nat) : Except Error Unit × Automaton :=
  if index < a.stateCount then (.ok (), { a with initial := some index, current := some index })
  else a.refuse (a.indexError index)

def setCurrent (a : Automaton) (index : Nat) : Except Error Unit × Automaton :=
  if index < a.stateCount then (.ok (), { a with current := some index })
  else a.refuse (a.indexError index)

def reset (a : Automaton) : Automaton := { a with current := a.initial }

/-- Adds a transition between states that are there. -/
def connect (a : Automaton) (source target : Nat) (label : Option Label) (priority : Int) :
    Automaton :=
  a.modifyState source fun s => s.addTransition ⟨source, target, label, priority⟩

/-- Adds a transition with a text as its label, or without one. -/
def addTransition (a : Automaton) (source target : Nat) (text : Option String) (priority : Int) :
    Except Error Unit × Automaton :=
  if source < a.stateCount then
    if target < a.stateCount then
      match text.mapM Label.ofText with
      | .ok label => (.ok (), a.connect source target label priority)
      | .error e => a.refuse e
    else a.refuse (a.indexError target)
  else a.refuse (a.indexError source)

def transition? (a : Automaton) (state index : Nat) : Option Transition :=
  a.states[state]?.bind fun s => s.transitions[index]?

def currentTransitions (a : Automaton) (capacity : Nat) : List Transition :=
  match a.current.bind fun i => a.states[i]? with
  | some s => s.transitions.take capacity
  | none => []

/-- Follows the first transition of the current state that takes a character. -/
def step (a : Automaton) (c : Char) : Bool × Automaton :=
  match (a.current.bind fun i => a.states[i]?).bind fun s =>
      s.transitions.find? (·.matchesChar c) with
  | some t => (true, { a with current := some t.target })
  | none => (false, a)

/-- The states that can be reached from some states without input, in ascending order. Assertions
are not looked at. -/
def closure (a : Automaton) (start : List Nat) : List Nat :=
  (Graph.depthFirst a.epsilonTargets (Graph.unseen a.stateCount) start).mergeSort (· ≤ ·)

/-- The states that can be reached from the initial one over transitions and bodies, breadth
first. -/
def reachable (a : Automaton) : List Nat :=
  Graph.breadthFirst a.successors (Graph.unseen a.stateCount) a.initial.toList

/-- True when a state can be passed at a place of the input: its assertions hold there, and it has
no action. -/
def isOpenAt (a : Automaton) (input : Array Char) (position s : Nat) : Bool :=
  match a.states[s]? with
  | some state => state.marks.holdAt input position && state.action.isNone
  | none => false

/-- The states that can be entered at a place of the input without taking any of it. -/
def enteredAt (a : Automaton) (input : Array Char) (position : Nat) (start : List Nat) : List Nat :=
  let isOpen := a.isOpenAt input position
  let next := fun s => if isOpen s then a.epsilonTargets s else []
  (Graph.depthFirst next (Graph.unseen a.stateCount) start).filter isOpen

def targetsOn (a : Automaton) (c : Char) (states : List Nat) : List Nat :=
  states.flatMap fun s =>
    match a.states[s]? with
    | some state => (state.transitions.filter (·.matchesChar c)).map (·.target)
    | none => []

/-- Follows an input from a set of states at one of its places. -/
def acceptsFrom (a : Automaton) (input : Array Char) (states : List Nat) :
    Nat → List Char → Bool
  | _, [] => states.any fun s => a.states[s]?.any (·.accepting)
  | position, c :: rest =>
    match a.targetsOn c states with
    | [] => false
    | targets => acceptsFrom a input (a.enteredAt input (position + 1) targets) (position + 1) rest

/-- True when the automaton accepts the whole input. Actions count as dead ends. -/
def accepts (a : Automaton) (input : Array Char) : Bool :=
  match a.initial with
  | some s => acceptsFrom a input (a.enteredAt input 0 [s]) 0 input.toList
  | none => false

/-- True when no two of the sets have a character in common. -/
def areDisjoint (seen : CharRanges) : List (Option CharRanges) → Bool
  | [] => true
  | none :: _ => false
  | some r :: rest =>
    !(r.pairs.any fun (lo, hi) => seen.pairs.any fun (first, last) => lo ≤ last && first ≤ hi)
      && areDisjoint (seen.union r) rest

/-- True when no state has an assertion or an action, every transition takes exactly one character,
and no character leaves a state in two ways. -/
def isDeterministic (a : Automaton) : Bool :=
  a.states.all fun s =>
    s.action.isNone && !s.marks.hasAssertion
      && areDisjoint .empty (s.transitions.map Transition.ranges?)

/-- Checks one state: its identifier is new, its transitions start here and end inside, and so do
bodies. -/
def checkState (count index : Nat) (ids : List UInt32) (s : State) : Except Error Unit :=
  if ids.contains s.id then .error AutomatonFault.duplicateId.error
  else if s.transitions.any fun t => t.source != index || count ≤ t.target then
    .error AutomatonFault.endpointOutside.error
  else if (s.action.bind Action.body?).any (count ≤ ·) then
    .error AutomatonFault.bodyOutside.error
  else .ok ()

def checkStates (count : Nat) : Nat → List UInt32 → List State → Except Error Unit
  | _, _, [] => .ok ()
  | index, ids, s :: rest => do
    checkState count index ids s
    checkStates count (index + 1) (s.id :: ids) rest

/-- Checks that nothing refers to a state outside of the automaton, that identifiers differ, and
that a deterministic automaton takes input on every transition. -/
def checkIntegrity (a : Automaton) : Except Error Unit := do
  let count := a.stateCount
  if a.initial.any (count ≤ ·) then .error AutomatonFault.initialOutside.error
  else if a.current.any (count ≤ ·) then .error AutomatonFault.currentOutside.error
  else
    checkStates count 0 [] a.states.toList
    if a.kind = .dfa && a.transitions.any (·.isEpsilon) then
      .error AutomatonFault.epsilonInDfa.error
    else .ok ()

/-- Keeps the states that a table names, and drops the transitions into others. -/
def retain (a : Automaton) (keep : Array Bool) : Automaton :=
  let kept := (List.range a.stateCount).filter fun s => keep[s]?.getD false
  let places : Array (Option Nat) :=
    (kept.zipIdx).foldl (fun table (s, i) => table.setIfInBounds s (some i))
      (Array.replicate a.stateCount none)
  let place := fun s => places[s]?.join
  let move := fun s => (place s).getD s
  let moved := kept.zipIdx.filterMap fun (s, i) => a.states[s]?.map fun state =>
    { state with
      transitions := state.transitions.filterMap fun t =>
        (place t.target).map fun target => { t with source := i, target := target }
      action := state.action.map (·.mapBody move) }
  let initial := a.initial.bind place
  { a with
    states := moved.toArray
    initial := initial
    current := (a.current.bind place).or initial }

end Automaton

end RegexEngine
