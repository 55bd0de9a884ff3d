import RegexEngine.Proofs.Automaton.Settles
import RegexEngine.Proofs.Program.Room

/-!
What the check of a tree accepts, both compilers accept, as far as they go. Three readers look at
the same tree: the check reads the classes on their own, maybe strictly; the automaton has labels
that are put together of marks and classes or escaped characters; and programs keep classes in a
pool.
-/

namespace RegexEngine.SyntaxTree

/-- A tree that passed the check has an automaton of no more states than are allowed, unless a limit
stops the construction, and no two states are confused as long as there are identifiers for all. It
has a program, unless an expression in it is not supported, or the program is too large for its
addresses to be words. -/
theorem accepted_compiles {tree : SyntaxTree} {maxDepth : Nat} (made : tree.Made)
    (accepted : tree.validate maxDepth = .ok ()) :
    (∀ (maxStates : Nat) (base : UInt32),
      match ((Automaton.ofTree tree maxStates).run base).1 with
      | .ok a => a.stateCount ≤ maxStates ∧
          (a.checkIntegrity = .ok () ↔ a.stateCount ≤ UInt32.size)
      | .error e => e.kind = .limit) ∧
    match Program.ofTree tree with
    | .ok _ => True
    | .error e => e.kind = .unsupportedOperation ∨
        e.kind = .limit ∧ UInt32.size ≤ tree.root.room := by
  have checked := checked_of_validate made accepted
  refine ⟨fun maxStates base => Automaton.ofTree_settles checked maxStates base, ?_⟩
  cases failed : Program.ofTree tree with
  | ok p => trivial
  | error e => exact Program.ofTree_declines made checked failed

/-- A tree that was made by hand: a named group, a reference to it, a class in it, a repetition of
alternatives that are none, and a character that has to be escaped. -/
def handmade : SyntaxTree :=
  ofTree (.concat [.capture 7 (some "x") (.cls .bracket "[a-c\\d]"), .backref (.name "x"),
    .repetition ⟨2, none, true, false⟩ (.alt []), .literal '(']) (.union .strict .nocase)

/-- It has both: an automaton of at most twenty states, and a program. -/
theorem accepted_compiles_handmade : handmade.Made ∧ handmade.validate 2 = .ok () ∧
    (∃ a, ((Automaton.ofTree handmade 20).run 0).1 = .ok a ∧ a.stateCount ≤ 20 ∧
      a.checkIntegrity = .ok ()) ∧
    ∃ p, Program.ofTree handmade = .ok p := by
  have made : handmade.Made := made_ofTree ..
  have accepted : handmade.validate 2 = .ok () := by rfl
  have built : ((Automaton.ofTree handmade 20).run 0).1.isOk = true := by decide +kernel
  have lowered : (Program.ofTree handmade).isOk = true := by rfl
  -- what follows does not look into the tree
  generalize handmade = tree at made accepted built lowered ⊢
  have compiles := (accepted_compiles made accepted).1 20 0
  obtain ⟨a, answer⟩ := exists_of_isOk built
  rw [answer] at compiles
  obtain ⟨few, integrity⟩ := compiles
  exact ⟨made, accepted, ⟨a, answer, few, integrity.mpr (few.trans (by decide))⟩,
    exists_of_isOk lowered⟩

end RegexEngine.SyntaxTree
