/-!
Settings of the engine: bounds on patterns and on searches, and what is done with patterns when they
are compiled.
-/

namespace RegexEngine

structure SearchLimits where
  /-- The greatest number of ways that may wait to be tried. -/
  maxDepth : Nat
  /-- The longest time in milliseconds. -/
  maxDurationMs : Nat
  /-- The greatest number of transitions of one attempt. -/
  maxTransitions : Nat
deriving DecidableEq, Repr

structure Config where
  /-- The longest pattern in bytes. -/
  maxPatternLength : Nat
  /-- The greatest number of states of an automaton. -/
  maxStates : Nat
  /-- The greatest number of capture groups. -/
  maxCaptureGroups : Nat
  /-- The greatest nesting of a pattern. -/
  maxNesting : Nat
  /-- Every automaton is simplified. -/
  simplifyAutomata : Bool
  /-- Automata are made deterministic where they can be. -/
  preferDeterministic : Bool
  /-- Patterns may be written as raw literals. -/
  rawLiterals : Bool
  limits : SearchLimits
deriving DecidableEq, Repr

namespace Config

def default : Config where
  maxPatternLength := 4096
  maxStates := 10000
  maxCaptureGroups := 100
  maxNesting := 1000
  simplifyAutomata := false
  preferDeterministic := false
  rawLiterals := true
  limits := ⟨10000, 5000, 1000000⟩

end Config

end RegexEngine
