import RegexEngine.Proofs.Automaton.Charts
import RegexEngine.Proofs.Automaton.Minimal

/-!
Automata without groups and actions. What was made deterministic is such an automaton, whatever it
was made of, and simplifying keeps that. Every chart that is the same everywhere fits it.
-/

namespace RegexEngine

/-- A state has no group and does nothing but go on. -/
def State.IsBare (s : State) : Prop := s.groupIndex = none ∧ s.action = none

namespace Automaton

/-- No state has a group or an action. -/
def IsBare (a : Automaton) : Prop := ∀ s ∈ a.states, s.IsBare

variable {a : Automaton}

theorem IsBare.charted (h : a.IsBare) (group : Nat) (z : Stage) :
    a.Charted group fun _ => z := by
  intro index s hs
  obtain ⟨hgroup, haction⟩ := h s (Array.mem_of_getElem? hs)
  have hasks : s.asks? = none := by simp [State.asks?, haction]
  exact ⟨z, .passes (by simp [hgroup]) hasks (.same z), fun _ _ => .same z⟩

theorem IsBare.startsAt (h : a.IsBare) (group : Nat) (z : Stage) {i : Nat}
    (hi : a.initial = some i) : a.StartsAt group z :=
  ⟨fun _ => z, i, h.charted group z, hi, .same z⟩

/-! Construction. -/

theorem isBare_of_states {b : Automaton} (h : a.IsBare) (heq : b.states = a.states) : b.IsBare := by
  intro s hs
  exact h s (heq ▸ hs)

theorem IsBare.addState (h : a.IsBare) (id : UInt32) (accepting : Bool) :
    (a.addState (.new id accepting)).2.IsBare := by
  intro s hs
  rcases Array.mem_push.mp hs with hs | rfl
  · exact h s hs
  · exact ⟨rfl, rfl⟩

theorem IsBare.connect (h : a.IsBare) (source target : Nat) (label : Option Label)
    (priority : Int) : (a.connect source target label priority).IsBare := by
  intro s hs
  obtain ⟨k, hk⟩ := Array.mem_iff_getElem?.mp hs
  rw [Automaton.connect, modifyState, Array.getElem?_modify] at hk
  split at hk
  · obtain ⟨before, hbefore, rfl⟩ := Option.map_eq_some_iff.mp hk
    exact h before (Array.mem_of_getElem? hbefore)
  · exact h s (Array.mem_of_getElem? hk)

/-- Something that holds of automata while states and transitions are added to them. -/
structure Endures (Q : Automaton → Prop) : Prop where
  addState : ∀ a id accepting, Q a → Q (a.addState (.new id accepting)).2
  connect : ∀ a source target label, Q a → Q (a.connect source target label 0)
  start : ∀ (a : Automaton) (i : Option Nat), Q a → Q { a with initial := i, current := i }

section Endures

variable {Q : Automaton → Prop}

theorem Endures.addStates (hQ : Endures Q) (h : Q a) (marks : List Bool) (base : UInt32) :
    Q ((Automaton.addStates a marks).run base).1 := by
  induction marks generalizing a base with
  | nil => exact h
  | cons accepting rest ih => exact ih (hQ.addState a base accepting h) (base + 1)

theorem Endures.drawEdges (hQ : Endures Q) {edges : List (Nat × Nat × CharRanges)} {b : Automaton}
    (h : Q a) (hdrawn : edges.foldlM drawEdge a = .ok b) : Q b := by
  induction edges generalizing a with
  | nil =>
    cases hdrawn
    exact h
  | cons edge rest ih =>
    rw [List.foldlM_cons, drawEdge] at hdrawn
    cases hlabel : Label.ofText edge.2.2.spec with
    | error e =>
      rw [hlabel] at hdrawn
      cases hdrawn
    | ok label =>
      rw [hlabel] at hdrawn
      exact ih (hQ.connect _ _ _ _ h) hdrawn

theorem Endures.ofQuotient (hQ : Endures Q) {q : Quotient} {flags : Flags} {base nextId : UInt32}
    (hstart : Q { Automaton.empty .dfa with flags := flags })
    (h : (Automaton.ofQuotient q flags).run base = (.ok a, nextId)) : Q a := by
  let start : Automaton := { Automaton.empty .dfa with flags := flags }
  let marks := q.order.map fun b => q.accepting[b]?.getD false
  have hrun : (Automaton.ofQuotient q flags).run base =
      ((q.drawnEdges.foldlM drawEdge ((Automaton.addStates start marks).run base).1).map
          fun a : Automaton => { a with initial := some 0, current := some 0 },
        ((Automaton.addStates start marks).run base).2) := rfl
  rw [hrun] at h
  cases hdrawn : q.drawnEdges.foldlM drawEdge ((Automaton.addStates start marks).run base).1 with
  | error e =>
    rw [hdrawn] at h
    cases h
  | ok drawn =>
    rw [hdrawn] at h
    cases h
    exact hQ.start _ _ (hQ.drawEdges (hQ.addStates hstart marks base) hdrawn)

end Endures

theorem endures_isBare : Endures IsBare where
  addState _ id accepting h := h.addState id accepting
  connect _ source target label h := h.connect source target label 0
  start _ _ h := isBare_of_states h rfl

theorem endures_kind (kind : AutomatonKind) : Endures fun a => a.kind = kind :=
  ⟨fun _ _ _ h => h, fun _ _ _ _ h => h, fun _ _ h => h⟩

/-- What is minimized is made anew. -/
theorem minimize_ok {dfa : Automaton} {base nextId : UInt32}
    (h : dfa.minimize.run base = (.ok a, nextId)) : a.IsBare ∧ a.kind = .dfa := by
  unfold minimize at h
  split at h
  · cases h
  · split at h
    · cases h
    · split at h
      · cases h
      · refine ⟨endures_isBare.ofQuotient ?_ h, (endures_kind .dfa).ofQuotient rfl h⟩
        exact fun s hs => by simp [Automaton.empty] at hs

/-! Passes. -/

end Automaton

/-- Something that holds of states holds of all that have the same group and do the same, wherever
their bodies start. -/
def State.Persists (P : State → Prop) : Prop :=
  ∀ (place : Nat → Nat) (s s' : State), s'.groupIndex = s.groupIndex →
    s'.action = s.action.map (·.mapBody place) → P s → P s'

theorem State.persists_isBare : Persists IsBare :=
  fun _ _ _ hgroup haction h => ⟨hgroup.trans h.1, by rw [haction, h.2]; rfl⟩

namespace Automaton

variable {a : Automaton} {P : State → Prop}

theorem forall_retainOnly (hP : State.Persists P) (h : ∀ s ∈ a.states, P s) (kept : List Nat) :
    ∀ s ∈ (a.retainOnly kept).2.states, P s := by
  unfold Automaton.retainOnly
  dsimp only
  split
  · exact h
  · intro s hs
    obtain ⟨k, hk⟩ := Array.mem_iff_getElem?.mp hs
    obtain ⟨_, before, _, hbefore, rfl⟩ := getElem?_retain.mp hk
    exact hP _ before _ rfl rfl (h before (Array.mem_of_getElem? hbefore))

theorem forall_map (hP : State.Persists P) (h : ∀ s ∈ a.states, P s) {f : State → State}
    {place : Nat → Nat} (hf : ∀ s, (f s).Imitates place s) {b : Automaton}
    (hb : b.states = a.states.map f) : ∀ s ∈ b.states, P s := by
  intro s hs
  rw [hb] at hs
  obtain ⟨before, hbefore, rfl⟩ := Array.mem_map.mp hs
  exact hP place before _ (hf before).groupIndex_eq (hf before).action_eq (h before hbefore)

theorem states_bypassForwarders (a : Automaton) :
    a.bypassForwarders.2.states = a.states.map a.bypassed := by
  unfold Automaton.bypassForwarders
  dsimp only
  split
  · split <;> rfl
  · rfl

theorem forall_simplifyOnce (hP : State.Persists P) (h : ∀ s ∈ a.states, P s) :
    ∀ s ∈ a.simplifyOnce.2.states, P s := by
  have hremoved : ∀ s ∈ a.removeUnreachable.2.removeDead.2.states, P s :=
    forall_retainOnly hP (forall_retainOnly hP h _) _
  have hmerged : ∀ s ∈ a.removeUnreachable.2.removeDead.2.mergeTransitions.2.states, P s :=
    forall_map hP hremoved merged_imitates rfl
  exact forall_map hP hmerged bypassed_imitates (states_bypassForwarders _)

theorem forall_simplifyFully (hP : State.Persists P) (fuel : Nat) (h : ∀ s ∈ a.states, P s) :
    ∀ s ∈ (Automaton.simplifyFully fuel a).states, P s := by
  induction fuel generalizing a with
  | zero => exact h
  | succ fuel ih =>
    have honce := forall_simplifyOnce hP h
    unfold Automaton.simplifyFully
    split
    · rename_i b heq
      rw [heq] at honce
      exact ih honce
    · rename_i b heq
      rw [heq] at honce
      exact honce

theorem kind_retainOnly (a : Automaton) (kept : List Nat) :
    (a.retainOnly kept).2.kind = a.kind := by
  unfold Automaton.retainOnly
  dsimp only
  split <;> rfl

theorem kind_simplifyOnce (a : Automaton) : a.simplifyOnce.2.kind = a.kind := by
  have hremoved : a.removeUnreachable.2.removeDead.2.kind = a.kind :=
    (kind_retainOnly _ _).trans (kind_retainOnly _ _)
  refine Eq.trans ?_ hremoved
  change (bypassForwarders _).2.kind = _
  unfold Automaton.bypassForwarders
  dsimp only
  split
  · split <;> rfl
  · rfl

theorem kind_simplifyFully (fuel : Nat) (a : Automaton) :
    (Automaton.simplifyFully fuel a).kind = a.kind := by
  induction fuel generalizing a with
  | zero => rfl
  | succ fuel ih =>
    have honce := kind_simplifyOnce a
    unfold Automaton.simplifyFully
    split
    · rename_i b heq
      rw [heq] at honce
      exact (ih b).trans honce
    · rename_i b heq
      rw [heq] at honce
      exact honce

/-- What is simplified makes sense, and is minimized too if it is deterministic. -/
theorem optimize_ok {b : Automaton} {base nextId : UInt32}
    (h : a.optimize.run base = ((.ok (), b), nextId)) :
    a.initial = none ∧ b = a ∨ a.WellFormed ∧ ∃ fuel, b = Automaton.simplifyFully fuel a ∨
      b.IsBare ∧ b.kind = .dfa := by
  unfold Automaton.optimize at h
  split at h
  · rename_i hinitial
    cases h
    exact .inl ⟨hinitial, rfl⟩
  · cases h
  · rename_i hintegrity
    refine .inr ⟨(checkIntegrity_iff a).mp hintegrity,
      2 * (a.stateCount + a.transitionCount) + 2, ?_⟩
    dsimp only at h
    split at h
    · rw [StateT.run_bind] at h
      generalize hleast : (minimize _).run base = result at h
      obtain ⟨e | least, nextId'⟩ := result
      · cases h
      · cases h
        obtain ⟨hbare, hkind⟩ := minimize_ok hleast
        exact .inr ⟨isBare_of_states hbare rfl, hkind⟩
    · cases h
      exact .inl rfl

/-- What holds of the states of an automaton, and of all states that are bare, holds of those of the
simplified one. -/
theorem forall_optimize (hP : State.Persists P) (hbare : ∀ s : State, s.IsBare → P s)
    (h : ∀ s ∈ a.states, P s) {b : Automaton} {base nextId : UInt32}
    (hrun : a.optimize.run base = ((.ok (), b), nextId)) : ∀ s ∈ b.states, P s := by
  rcases optimize_ok hrun with ⟨_, rfl⟩ | ⟨_, fuel, rfl | ⟨hleast, _⟩⟩
  · exact h
  · exact forall_simplifyFully hP fuel h
  · exact fun s hs => hbare s (hleast s hs)

theorem IsBare.optimize (h : a.IsBare) {b : Automaton} {base nextId : UInt32}
    (hrun : a.optimize.run base = ((.ok (), b), nextId)) : b.IsBare :=
  forall_optimize State.persists_isBare (fun _ h => h) h hrun

/-- What is deterministic stays so when it is simplified. -/
theorem kind_optimize (h : a.kind = .dfa) {b : Automaton} {base nextId : UInt32}
    (hrun : a.optimize.run base = ((.ok (), b), nextId)) : b.kind = .dfa := by
  rcases optimize_ok hrun with ⟨_, rfl⟩ | ⟨_, fuel, rfl | ⟨_, hkind⟩⟩
  · exact h
  · exact (kind_simplifyFully fuel a).trans h
  · exact hkind

end Automaton

end RegexEngine
