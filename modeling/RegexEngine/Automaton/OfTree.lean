import RegexEngine.Automaton.Basic
import RegexEngine.SyntaxTree.Basic

/-!
The automaton of an expression. Every expression becomes a fragment with one entry and one exit, and
fragments are joined by transitions without labels. The order in which the transitions of a state
are added is the order in which they are tried: alternatives from left to right, and of a greedy
repetition the way in before the way out.

The options of an expression hold for what follows it in the enclosing group, so the flags in effect
are part of the state of the construction.
-/

namespace RegexEngine

def defaultMaxStates : Nat := 10000

/-- A part of an automaton with one entry and one exit. -/
structure Fragment where
  start : Nat
  stop : Nat

structure Blueprint where
  automaton : Automaton
  nextId : UInt32
  /-- The flags in effect. -/
  flags : Flags
  groups : List (Option String)
  maxStates : Nat

namespace Blueprint

/-- A step of the construction. What was built before an error is kept, for its identifiers. -/
abbrev Step (α : Type) := ExceptT Error (StateM Blueprint) α

def newState : Step Nat := do
  let p ← get
  if p.maxStates ≤ p.automaton.stateCount then throw (LimitFault.states p.maxStates).error
  else
    modifyGet fun p =>
      let index := p.automaton.states.size
      (index, { p with
        automaton := { p.automaton with states := p.automaton.states.push (.new p.nextId false) }
        nextId := p.nextId + 1 })

def change (index : Nat) (f : State → State) : Step Unit :=
  modify fun p => { p with automaton := p.automaton.modifyState index f }

def markedState (marks : Marks) : Step Nat := do
  let s ← newState
  change s fun state => { state with marks := marks }
  pure s

def actionState (action : Action) : Step Nat := do
  let s ← newState
  change s fun state => { state with action := some action }
  pure s

def single (s : Nat) : Fragment := ⟨s, s⟩

def join (source target : Nat) : Step Unit :=
  modify fun p => { p with automaton := p.automaton.connect source target none 0 }

def consuming (label : List Char) : Step Fragment := do
  let start ← newState
  let stop ← newState
  let label ← match Label.ofChars label with
    | .ok label => pure label
    | .error e => throw e
  modify fun p => { p with automaton := p.automaton.connect start stop (some label) 0 }
  pure ⟨start, stop⟩

def flags? : Step Flags := do pure (← get).flags

/-- What a label begins with when case is ignored. -/
def caseMark (flags : Flags) : List Char :=
  if flags.contains .nocase then Matcher.nocaseMark else []

def keepingFlags {α : Type} (build : Step α) : Step α := do
  let saved ← flags?
  let built ← build
  modify fun p => { p with flags := saved }
  pure built

def resolve (ref : GroupRef) : Step Nat := do
  let p ← get
  match ref with
  | .number n =>
    if 0 < n ∧ n ≤ p.groups.length then pure n else throw (PatternFault.undefinedGroup n).error
  | .name name =>
    match SyntaxTree.indexOfName? p.groups name with
    | some n => pure n
    | none => throw (PatternFault.undefinedName name).error

def anchorMarks (flags : Flags) : Anchor → Marks
  | .caret => if flags.contains .multiline then .lineStart else .inputStart
  | .dollar => if flags.contains .multiline then .lineEnd else .inputEndOrNewline
  | .inputStart => .inputStart
  | .inputEnd => .inputEnd
  | .inputEndOrNewline => .inputEndOrNewline

def verbAction : Verb → Action
  | .fail => .fail
  | .accept => .accept
  | .commit => .commit

/-- Ends a body, and answers with where it starts. -/
def closeBody (inner : Fragment) : Step Nat := do
  let stop ← markedState .bodyEnd
  join inner.stop stop
  pure inner.start

/-- Joins a state with the way into a repetition and the way out, in the order in which they are
tried. -/
def choice (source inside outside : Nat) (greedy : Bool) : Step Unit :=
  if greedy then do join source inside; join source outside
  else do join source outside; join source inside

def copies (build : Step Fragment) : Nat → Nat → Step Nat
  | 0, last => pure last
  | n + 1, last => do
    let inner ← build
    join last inner.start
    copies build n inner.stop

/-- Appends copies that may be left out, each one only together with those after it. -/
def optionalCopies (build : Step Fragment) (exit : Nat) (greedy : Bool) : Nat → Nat → Step Nat
  | 0, last => pure last
  | n + 1, last => do
    let inner ← build
    choice last inner.start exit greedy
    optionalCopies build exit greedy n inner.stop

/-- A repetition of an expression. When there is no upper bound, the last copy that has to be there
is the one that loops. -/
def repetition (build : Step Fragment) (min : Nat) (max : Option Nat) (greedy : Bool) :
    Step Fragment := do
  let start ← newState
  match max with
  | none =>
    let last ← copies build (min - 1) start
    let inner ← build
    let exit ← newState
    if 0 < min then
      join last inner.start
      choice inner.stop inner.start exit greedy
    else
      choice last inner.start exit greedy
      join inner.stop last
    pure ⟨start, exit⟩
  | some max =>
    let last ← copies build min start
    let exit ← newState
    let last ← optionalCopies build exit greedy (max - min) last
    join last exit
    pure ⟨start, exit⟩

/-- A repetition as it is marked. A possessive one is a greedy one as the body of an atomic group.
-/
def quantified (q : Quantifier) (build : Step Fragment) : Step Fragment := do
  let ungreedy := (← flags?).contains .ungreedy
  let build := keepingFlags build
  if q.possessive then
    let inner ← repetition build q.min q.max true
    let body ← closeBody inner
    single <$> actionState (.atomic body)
  else repetition build q.min q.max (q.greedy != ungreedy)

def conditional (condition : Condition) (yes no : Step Fragment) : Step Fragment := do
  let s ← actionState (.branch condition)
  let stop ← newState
  let yes ← keepingFlags yes
  let no ← keepingFlags no
  join s yes.start
  join s no.start
  join yes.stop stop
  join no.stop stop
  pure ⟨s, stop⟩

def skip : Step Fragment := single <$> newState

def captured (index : Nat) (name : Option String) (build : Step Fragment) : Step Fragment := do
  let start ← newState
  let inner ← build
  let stop ← newState
  change start fun s => { s.openGroup index with groupName := name }
  change stop fun s => { s.closeGroup index with groupName := name }
  join start inner.start
  join inner.stop stop
  pure ⟨start, stop⟩

def body (build : Step Fragment) : Step Nat := do
  let inner ← keepingFlags build
  closeBody inner

mutual

def fragment : Tree → Step Fragment
  | .empty | .comment _ => skip
  | .invalid => single <$> actionState .fail
  | .literal c => do consuming (caseMark (← flags?) ++ escapeChar c)
  | .dot => do
    if (← flags?).contains .dotAll then consuming (Matcher.dotAllMark ++ ['.'])
    else consuming ['.']
  | .cls _ spec => do consuming (caseMark (← flags?) ++ spec.toList)
  | .capture index name child => keepingFlags (captured index name (fragment child))
  | .group child => keepingFlags (fragment child)
  | .scope opts child => keepingFlags do
    modify fun p => { p with flags := opts.apply p.flags }
    fragment child
  | .backref ref => do
    let group ← resolve ref
    single <$> actionState (.backref group ((← flags?).contains .nocase))
  | .repetition q child => quantified q (fragment child)
  | .anchor a => do single <$> markedState (anchorMarks (← flags?) a)
  | .boundary negated =>
    single <$> markedState (if negated then .notWordBoundary else .wordBoundary)
  | .look kind child => do single <$> actionState (.look kind (← body (fragment child)))
  | .atomic child => do single <$> actionState (.atomic (← body (fragment child)))
  | .options opts => do
    modify fun p => { p with flags := opts.apply p.flags }
    skip
  | .groupCond ref yes none => do
    conditional (.group (← resolve ref)) (fragment yes) skip
  | .groupCond ref yes (some no) => do
    conditional (.group (← resolve ref)) (fragment yes) (fragment no)
  | .lookCond kind test yes none => do
    conditional (.look kind (← body (fragment test))) (fragment yes) skip
  | .lookCond kind test yes (some no) => do
    conditional (.look kind (← body (fragment test))) (fragment yes) (fragment no)
  | .verb v => single <$> actionState (verbAction v)
  | .alt items => keepingFlags do
    let start ← newState
    let stop ← newState
    alternatives start stop items
    pure ⟨start, stop⟩
  | .concat [] => skip
  | .concat (item :: rest) => do
    let first ← fragment item
    sequel first rest

def alternatives (start stop : Nat) : List Tree → Step Unit
  | [] => pure ()
  | item :: rest => do
    let inner ← fragment item
    join start inner.start
    join inner.stop stop
    alternatives start stop rest

def sequel (before : Fragment) : List Tree → Step Fragment
  | [] => pure before
  | item :: rest => do
    let inner ← fragment item
    join before.stop inner.start
    sequel ⟨before.start, inner.stop⟩ rest

end

def whole (root : Tree) : Step Fragment := do
  let inner ← fragment root
  let stop ← newState
  join inner.stop stop
  change stop fun s => { s with accepting := true }
  pure ⟨inner.start, stop⟩

end Blueprint

/-- The automaton of a tree, of a bounded number of states. -/
def Automaton.ofTree (tree : SyntaxTree) (maxStates : Nat) : Fresh (Except Error Automaton) :=
  fun nextId =>
    let (made, p) := (Blueprint.whole tree.root).run
      ⟨.empty .nfa, nextId, tree.flags, tree.groups, maxStates⟩
    (made.map fun inner => { p.automaton with
      initial := some inner.start, current := some inner.start, flags := tree.flags }, p.nextId)

end RegexEngine
