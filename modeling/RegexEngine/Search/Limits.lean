import RegexEngine.Config.Basic
import RegexEngine.Error

/-!
Where the bounds of a search come from. There are bounds for all searches, for the searches of one
pattern and for one search. Narrower bounds replace wider ones if they say so.
-/

namespace RegexEngine

inductive LimitScope
  | all | pattern | search
deriving DecidableEq, Repr

def LimitScope.name : LimitScope → String
  | all => "Global"
  | pattern => "Pattern"
  | search => "Match"

structure LimitConfig where
  scope : LimitScope
  /-- The bounds take the place of wider ones. -/
  overrides : Bool
  limits : SearchLimits
deriving DecidableEq, Repr

namespace LimitConfig

def forAll (limits : SearchLimits) : LimitConfig := ⟨.all, false, limits⟩

def forPattern (overrides : Bool) (limits : SearchLimits) : LimitConfig :=
  ⟨.pattern, overrides, limits⟩

def forSearch (overrides : Bool) (limits : SearchLimits) : LimitConfig :=
  ⟨.search, overrides, limits⟩

def withScope (c : LimitConfig) (scope : LimitScope) : LimitConfig := { c with scope := scope }

/-- A number that falls with the complexity, down to a least value. -/
def atLeast (least value : Float) : Nat :=
  (if value < least then least else value).toUInt64.toNat

/-- Bounds for a pattern by its complexity: the more complex, the tighter. -/
def scaled (complexity : Float) : LimitConfig :=
  let c := if 0.0 < complexity then complexity else 0.0
  forPattern true
    { maxDepth := atLeast 400.0 (2000.0 / (1.0 + 0.15 * c))
      maxDurationMs := atLeast 1500.0 (6000.0 - 300.0 * c)
      maxTransitions := atLeast 30000.0 (150000.0 - 10000.0 * c) }

end LimitConfig

/-- All bounds that are known. Patterns and searches are told apart by words. -/
structure LimitRegistry where
  global : LimitConfig
  patterns : List (UInt64 × LimitConfig)
  searches : List (UInt64 × LimitConfig)
deriving Repr

namespace LimitRegistry

def ofLimits (limits : SearchLimits) : LimitRegistry := ⟨.forAll limits, [], []⟩

def default : LimitRegistry := ofLimits Config.default.limits

/-- Refuses bounds that were made for something else. -/
def checkScope (c : LimitConfig) (wanted : LimitScope) : Except Error Unit :=
  if c.scope = wanted then .ok ()
  else .error (CallFault.scope wanted.name c.scope.name).error

def put (table : List (UInt64 × LimitConfig)) (id : UInt64) (c : LimitConfig) :
    List (UInt64 × LimitConfig) :=
  (id, c) :: table.filter (·.1 != id)

def setGlobal (r : LimitRegistry) (c : LimitConfig) : Except Error LimitRegistry := do
  checkScope c .all
  pure { r with global := c }

def registerPattern (r : LimitRegistry) (id : UInt64) (c : LimitConfig) :
    Except Error LimitRegistry := do
  checkScope c .pattern
  pure { r with patterns := put r.patterns id c }

def registerSearch (r : LimitRegistry) (id : UInt64) (c : LimitConfig) :
    Except Error LimitRegistry := do
  checkScope c .search
  pure { r with searches := put r.searches id c }

def pattern? (r : LimitRegistry) (id : UInt64) : Option LimitConfig := r.patterns.lookup id

def search? (r : LimitRegistry) (id : UInt64) : Option LimitConfig := r.searches.lookup id

def dropPattern (r : LimitRegistry) (id : UInt64) : LimitRegistry :=
  { r with patterns := r.patterns.filter (·.1 != id) }

def dropSearch (r : LimitRegistry) (id : UInt64) : LimitRegistry :=
  { r with searches := r.searches.filter (·.1 != id) }

/-- Puts narrower bounds in place of wider ones, if they say so. -/
def narrow (wide : LimitConfig) : Option LimitConfig → LimitConfig
  | some c => if c.overrides then { wide with limits := c.limits } else wide
  | none => wide

def effective (r : LimitRegistry) (pattern search : Option UInt64) : LimitConfig :=
  narrow (narrow r.global (pattern.bind r.pattern?)) (search.bind r.search?)

end LimitRegistry

end RegexEngine
