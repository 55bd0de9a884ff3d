import RegexEngine.Proofs.Pattern.Captures
import RegexEngine.Proofs.Search.Abandoned

/-!
Patterns that never profit from a failure. All their lookarounds are positive, they have no
conditions on lookarounds, no atomic groups and no verb that rules out other ways, and they refer to
no group that stands in a lookaround. Whatever is searched for such a pattern is monotone, so a
manager that gives up parts of a search may lose a match, but invents none. For other patterns it
may.
-/

namespace RegexEngine

open Tracked

/-! Expressions. -/

namespace Tree

/-- True for an expression that goes on only where it finds what it asks for, rules out no ways, and
does not refer to some groups, which are those that lookarounds capture. -/
def isMonotone (groups : List (Option String)) (looked : List Nat) : Tree → Bool
  | backref ref | groupCond ref _ _ =>
    (Blueprint.resolved groups ref).toOption.all fun number => !looked.contains number
  | repetition q _ => !q.possessive
  | look kind _ => !kind.isNegative
  | atomic _ | lookCond _ _ _ _ | verb .commit => false
  | _ => true

end Tree

/-- True for trees of which every expression goes on only where it finds what it asks for, rules out
no ways, and refers to no group that stands in a lookaround. -/
def SyntaxTree.isMonotone (tree : SyntaxTree) : Bool :=
  tree.root.preorder.all (·.isMonotone tree.groups tree.root.lookedGroups)

variable {read : Nat → Prop}

namespace State

theorem persists_isMonotone : Persists (IsMonotone read) := by
  intro place s s' _ haction h action haction'
  rw [haction] at haction'
  obtain ⟨before, hbefore, rfl⟩ := Option.map_eq_some_iff.mp haction'
  have hmonotone := h before hbefore
  cases before with
  | branch condition => cases condition <;> exact hmonotone
  | _ => exact hmonotone

theorem IsBare.isMonotone {s : State} (h : s.IsBare) : s.IsMonotone read := by
  intro action haction
  cases h.2.symm.trans haction

end State

namespace Pattern

open Automaton

variable {tree : SyntaxTree} {config : Config} {base nextId : UInt32} {c : Automaton}
  {group : Nat}

/-- However a tree is compiled, its automaton does only what the tree asks for. -/
theorem Compiles.isMonotone (h : Compiles tree config base nextId c)
    (hasks : tree.root.Each (Tree.AsksFor tree.groups (Action.IsMonotone read))) :
    c.IsMonotone read := by
  obtain ⟨a, nextId', ha, rfl | ⟨_, fuel, rfl⟩ | ⟨hbare, _⟩⟩ := h.cases
  · exact ofTree_actions hasks ha
  · exact forall_simplifyFully State.persists_isMonotone fuel (ofTree_actions hasks ha)
  · exact fun s hs => (hbare s hs).isMonotone

/-- Nothing in a nondeterministic automaton that was compiled refers to what is not there. -/
theorem Compiles.inside (h : Compiles tree config base nextId c) (hoffers : tree.root.AlwaysOffers)
    (hkind : c.kind = .nfa) : c.Inside := by
  obtain ⟨a, nextId', ha, hc⟩ := h.cases
  obtain ⟨hinside, _, _, htrim⟩ := ofTree_built hoffers ha
  rcases hc with rfl | ⟨hwell, fuel, rfl⟩ | ⟨_, hdfa⟩
  · exact hinside
  · obtain ⟨i, htrim⟩ := htrim hwell.distinct
    exact (restates_simplifyFully fuel hwell htrim.initial_eq).wellFormed.inside
  · cases hdfa.symm.trans hkind

section Text

variable {source : List Char} {flags : Flags} {maxNesting : Nat} {p : Program}

end Text

/-- True for patterns whose tree goes on only where it finds what it asks for. -/
def isMonotone (p : Pattern) : Bool := p.tree.all (·.isMonotone)

variable {source : String} {flags : Flags} {p : Pattern} {x : Searcher}

/-- A context that abandons every way but the first. -/
private def narrow (input : Array Char) : Context :=
  { (Context.new ⟨1000, 0, 0⟩ 0).setInput input with bailout := some ⟨[.depth 1]⟩ }

/-- A context for the same text that abandons nothing. -/
private def wide (input : Array Char) : Context := { narrow input with bailout := none }

end Pattern

end RegexEngine
