import RegexEngine.Automaton.Lockstep
import RegexEngine.Automaton.Longest
import RegexEngine.Pattern.Basic
import RegexEngine.Search.Match

/-!
What can be searched for: patterns, automata and whatever else says how an attempt at one place
goes. An automaton is searched for in one of three ways. A deterministic one gives its longest
match; others are followed one way after the other, or all ways at the same time if that is asked
for and possible.
-/

namespace RegexEngine

structure Searcher where
  groupCount : Nat
  /-- The name of a group, by its number. -/
  groupName : Nat → Option String
  flags : Flags
  /-- What bounds are looked up by. -/
  id : Option UInt64
  /-- Bounds to use where none are known. -/
  scaledLimits : Option LimitConfig
  raw : Bool
  /-- Tries to find a match that starts at a place. -/
  attempt : Search → Nat → Tracked Attempt

namespace Searcher

def toMatch (x : Searcher) (start : Nat) (found : Found) : Match :=
  let groups := (List.range x.groupCount).map fun i =>
    ⟨i + 1, x.groupName (i + 1), found.slots.start? (i + 1), found.slots.stop? (i + 1)⟩
  ⟨start, found.stop, groups⟩

end Searcher

namespace Automaton

def attempt (a : Automaton) (search : Search) (start : Nat) : Tracked Attempt :=
  match a.initial with
  | none => throw AutomatonFault.withoutInitial.error
  | some initial =>
    if a.kind = .dfa then a.longest search initial start
    else if search.mode = .lockstep && a.supportsLockstep then a.lockstep search initial start
    else a.code.search search initial start

/-- The name of a group: that of the first state that opens it. -/
def groupName (a : Automaton) (index : Nat) : Option String :=
  (a.states.find? fun s => s.opensGroup && s.groupIndex == some index).bind (·.groupName)

def searcher (a : Automaton) : Searcher where
  groupCount := a.groupCount
  groupName := a.groupName
  flags := a.flags
  id := none
  scaledLimits := none
  raw := false
  attempt := a.attempt

end Automaton

namespace Pattern

/-- A pattern as something to search for. Raw literals bring bounds by their complexity. -/
def searcher (p : Pattern) : Searcher where
  groupCount := p.groupCount
  groupName index := if index = 0 then none else p.groupNames[index - 1]?.join
  flags := p.automaton.flags
  id := some p.id
  scaledLimits := if p.raw then some (.scaled p.fingerprint.complexity) else none
  raw := p.raw
  attempt := p.automaton.attempt

end Pattern

end RegexEngine
