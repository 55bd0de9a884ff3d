import RegexEngine.Automaton.Determinize
import RegexEngine.Automaton.OfTree
import RegexEngine.Automaton.Simplify
import RegexEngine.Config.Basic
import RegexEngine.Pattern.Fingerprint
import RegexEngine.SyntaxTree.Parser
import RegexEngine.SyntaxTree.Validator

/-!
Compiled patterns: what was written, how it was read, and the automaton that searches run. A pattern
comes from a text, from a tree or from an automaton.
-/

namespace RegexEngine

structure Pattern where
  source : Option String
  /-- The flags that were asked for. Those in effect are the flags of the automaton. -/
  flags : Flags
  tree : Option SyntaxTree
  automaton : Automaton
  groupNames : List (Option String)
  raw : Bool
  id : Digest
  /-- The first error that was passed over when the pattern was read. -/
  lastError : Option Error

namespace Pattern

/-- Runs the second computation on the result of the first, unless that failed. -/
def bindFresh {α β : Type} (first : Fresh (Except Error α)) (next : α → Fresh (Except Error β)) :
    Fresh (Except Error β) := do
  match ← first with
  | .ok x => next x
  | .error e => pure (.error e)

def minimalDfa (a : Automaton) (maxStates : Nat) : Fresh (Except Error Automaton) :=
  bindFresh (a.toDfaWithLimit maxStates) Automaton.minimize

/-- Makes an automaton deterministic where the flags demand it, or where it can be and the settings
prefer it. Captures stand in the way of both. -/
def makeDeterministic (tree : SyntaxTree) (config : Config) (a : Automaton) :
    Fresh (Except Error Automaton) :=
  if tree.flags.contains .deterministic then
    if 0 < tree.groupCount then pure (.error AutomatonFault.capturesInDfa.error)
    else minimalDfa a config.maxStates
  else if config.preferDeterministic && tree.groupCount = 0 then do
    match ← a.toDfaWithLimit config.maxStates with
    | .ok dfa => dfa.minimize
    | .error _ => pure (.ok a)
  else pure (.ok a)

/-- Simplifies an automaton where the flags or the settings ask for it. -/
def simplify (tree : SyntaxTree) (config : Config) (a : Automaton) :
    Fresh (Except Error Automaton) :=
  if tree.flags.contains .optimized || config.simplifyAutomata then do
    match ← a.optimize with
    | (.ok _, a) => pure (.ok a)
    | (.error e, _) => pure (.error e)
  else pure (.ok a)

def check (tree : SyntaxTree) (config : Config) : Except Error Unit := do
  tree.validate config.maxNesting
  if config.maxCaptureGroups < tree.groupCount then
    throw (LimitFault.captureGroups tree.groupCount config.maxCaptureGroups).error

def ofTree (tree : SyntaxTree) (config : Config) : Fresh (Except Error Pattern) :=
  match check tree config with
  | .error e => pure (.error e)
  | .ok _ =>
    bindFresh (Automaton.ofTree tree config.maxStates) fun a =>
    bindFresh (makeDeterministic tree config a) fun a =>
    bindFresh (simplify tree config a) fun a =>
    let a := { a with flags := tree.flags }
    pure (.ok {
      source := none
      flags := tree.flags
      tree := some tree
      automaton := a
      groupNames := tree.groups
      raw := tree.raw
      id := .ofContent none (some tree.root) a tree.flags
      lastError := tree.recovered.head? })

def ofSyntaxTree (tree : SyntaxTree) : Fresh (Except Error Pattern) := ofTree tree .default

def checkText (source : String) (config : Config) : Except Error Unit :=
  let length := source.utf8ByteSize
  if config.maxPatternLength < length then
    .error (LimitFault.patternBytes length config.maxPatternLength).error
  else if !config.rawLiterals && RawLiteral.isRaw source.toList then
    .error (PatternFault.rawDisabled.errorAt 0)
  else .ok ()

/-- Compiles a text. The letters after a raw literal count for the automaton, but not for the flags
that the pattern was asked for with. -/
def ofText (source : String) (flags : Flags) (config : Config) : Fresh (Except Error Pattern) :=
  match checkText source config, SyntaxTree.parse source.toList flags config.maxNesting with
  | .error e, _ | .ok _, .error e => pure (.error e)
  | .ok _, .ok tree =>
    bindFresh (ofTree tree config) fun p =>
    pure (.ok { p with source := some source, flags := flags, id := .ofText source flags })

/-- Puts the name that a state carries in the place of its group. There is no place for a group with
the number zero, and none is looked for if the state carries no name. -/
def putName (names : Array (Option String)) (s : State) : Option (Array (Option String)) :=
  match s.groupIndex, s.groupName with
  | some 0, some _ => none
  | some (i + 1), some name => some (names.setIfInBounds i (some name))
  | _, _ => some names

/-- The name of each group up to the highest number: the one that the last state of the group
carries. -/
def namesOf? (a : Automaton) : Option (List (Option String)) :=
  (·.toList) <$> a.states.foldlM putName (Array.replicate a.groupCount none)

def checkAutomaton (a : Automaton) : Except Error Unit := do
  a.checkIntegrity
  if a.initial.isNone then throw AutomatonFault.withoutInitial.error

/-- Wraps an automaton. Where a name has no place, that breaks off without an answer. -/
def ofAutomaton? (a : Automaton) : Option (Except Error Pattern) :=
  match checkAutomaton a with
  | .error e => some (.error e)
  | .ok _ => (namesOf? a).map fun names => .ok {
      source := none
      flags := a.flags
      tree := none
      automaton := a
      groupNames := names
      raw := false
      id := .ofContent none none a a.flags
      lastError := none }

def groupCount (p : Pattern) : Nat := p.groupNames.length

def groupIndex? (p : Pattern) (name : String) : Option Nat :=
  SyntaxTree.indexOfName? p.groupNames name

def isValid (p : Pattern) : Bool := p.lastError.isNone

def fingerprint (p : Pattern) : Fingerprint :=
  .compute p.source (p.tree.map (·.root)) p.automaton p.flags p.groupCount p.raw

/-- Runs computations one after the other, up to the first that fails. -/
def sequenceFresh {α : Type} : List (Fresh (Except Error α)) → Fresh (Except Error (List α))
  | [] => pure (.ok [])
  | first :: rest =>
    bindFresh first fun x => bindFresh (sequenceFresh rest) fun xs => pure (.ok (x :: xs))

/-- The patterns of the alternatives at the top, each compiled by itself. A pattern without
alternatives gives itself. -/
def splitAlternation (p : Pattern) : Fresh (Except Error (List Pattern)) :=
  match p.tree with
  | none => pure (.ok [p])
  | some tree =>
    let flags := tree.flags.without .rawLiterals
    match p.source, tree.alternatives, tree.root with
    | some source, span :: spans, _ =>
      sequenceFresh ((span :: spans).map fun (start, stop) =>
        let part := (Text.sliceBytes? source.toList start stop).getD []
        ofText (String.ofList part) flags .default)
    | _, _, .alt items =>
      sequenceFresh (items.map fun item => ofSyntaxTree (.ofTree item flags))
    | _, _, _ => pure (.ok [p])

/-- True when two patterns were written the same way, with the same flags. -/
def same (a b : Pattern) : Bool := a.source == b.source && a.flags == b.flags

/-- A pattern as it was written, with its flags in brackets. -/
def text (p : Pattern) : String :=
  let written := match p.source, p.tree with
    | some source, _ => source
    | none, some tree => tree.root.text
    | none, none => "<automaton with " ++ toString p.automaton.stateCount ++ " states>"
  if p.flags.isEmpty then written else written ++ " [" ++ p.flags.text ++ "]"

end Pattern

end RegexEngine
