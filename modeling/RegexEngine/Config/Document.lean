import RegexEngine.Config.Basic
import RegexEngine.Error
import RegexEngine.Toml.Reader

/-!
Settings as TOML documents. What a document does not set stays as it is by default, and keys that
mean nothing are passed over. A setting of another kind than it should be makes the whole document
invalid.
-/

namespace RegexEngine

namespace Toml.Node

def nat? : Node → Option Nat
  | .integer n => if 0 ≤ n then some n.toNat else none
  | _ => none

def bool? : Node → Option Bool
  | .boolean b => some b
  | _ => none

end Toml.Node

namespace Config

def setting {α : Type} (read : Toml.Node → Option α) (default : α) :
    Option Toml.Node → Option α
  | none => some default
  | some node => read node

def limitsOf (default : SearchLimits) (depth duration transitions : Option Toml.Node) :
    Option SearchLimits := do
  pure {
    maxDepth := ← setting (·.nat?) default.maxDepth depth
    maxDurationMs := ← setting (·.nat?) default.maxDurationMs duration
    maxTransitions := ← setting (·.nat?) default.maxTransitions transitions }

def limitsOfFields (default : SearchLimits) (fields : Toml.Fields) : Option SearchLimits :=
  limitsOf default (fields.lookup "max_depth") (fields.lookup "max_duration_ms")
    (fields.lookup "max_transitions")

/-- Bounds of searches. They are a table, or an array in the order of the bounds. A point in time
sets none of them. -/
def limitsOfNode? (default : SearchLimits) : Toml.Node → Option SearchLimits
  | .table _ fields | .inline fields => limitsOfFields default fields
  | .array items => limitsOf default items[0]? items[1]? items[2]?
  | .time _ => some default
  | _ => none

def ofFields? (default : Config) (fields : Toml.Fields) : Option Config := do
  let nat := fun key d => setting (·.nat?) d (fields.lookup key)
  let bool := fun key d => setting (·.bool?) d (fields.lookup key)
  pure {
    maxPatternLength := ← nat "max_pattern_length" default.maxPatternLength
    maxStates := ← nat "max_states" default.maxStates
    maxCaptureGroups := ← nat "max_capture_groups" default.maxCaptureGroups
    maxNesting := ← nat "max_recursion_depth" default.maxNesting
    simplifyAutomata := ← bool "optimize_automaton" default.simplifyAutomata
    preferDeterministic := ← bool "use_dfa_when_possible" default.preferDeterministic
    rawLiterals := ← bool "enable_rift_syntax" default.rawLiterals
    limits := ← setting (limitsOfNode? default.limits) default.limits (fields.lookup "limits") }

/-- The fields of the document that sets all bounds of searches. -/
def limitFields (limits : SearchLimits) : Toml.Fields :=
  [("max_depth", .integer limits.maxDepth), ("max_duration_ms", .integer limits.maxDurationMs),
   ("max_transitions", .integer limits.maxTransitions)]

def toFields (c : Config) : Toml.Fields :=
  [("max_pattern_length", .integer c.maxPatternLength), ("max_states", .integer c.maxStates),
   ("max_capture_groups", .integer c.maxCaptureGroups),
   ("max_recursion_depth", .integer c.maxNesting),
   ("optimize_automaton", .boolean c.simplifyAutomata),
   ("use_dfa_when_possible", .boolean c.preferDeterministic),
   ("enable_rift_syntax", .boolean c.rawLiterals),
   ("limits", .table .header (limitFields c.limits))]

/-- Settings from a document, over those that hold by default. -/
def ofToml (source : String) : Except Error Config :=
  match (Toml.read? source.toList).bind (ofFields? .default) with
  | some config => .ok config
  | none => .error CallFault.badSettings.error

end Config

end RegexEngine
