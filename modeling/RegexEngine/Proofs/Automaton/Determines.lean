import RegexEngine.Proofs.Automaton.Language
import RegexEngine.Proofs.Automaton.Minimal
import RegexEngine.Proofs.Search.Longest

/-!
From an automaton to a deterministic one, all steps together: it is made deterministic, then
minimized, and simplified at the end if that is asked for. Each step after the first succeeds, and
the language is that of the automaton in the beginning.
-/

namespace RegexEngine.Automaton

variable {a dfa : Automaton}

/-- A deterministic automaton that accepts the same inputs. -/
structure Determines (a dfa : Automaton) : Prop where
  kind_eq : dfa.kind = .dfa
  deterministic : dfa.Deterministic
  wellFormed : dfa.WellFormed
  exists_initial : ∃ i, dfa.initial = some i
  accepts_eq : ∀ input, dfa.accepts input = a.accepts input

/-- What can be made deterministic can be followed in lockstep. -/
theorem Edges.supportsLockstep {edges : Array (List Edge)} (h : Edges a edges) :
    a.supportsLockstep = true := by
  unfold Automaton.supportsLockstep
  rw [Bool.and_eq_true, Bool.not_eq_true', hasActions, Array.any_eq_false', List.all_eq_true]
  refine ⟨fun s hs => ?_, fun t ht => ?_⟩
  · obtain ⟨i, hi⟩ := Array.mem_iff_getElem?.mp hs
    rw [(h.allOpen i s hi).1]
    exact Bool.false_ne_true
  · obtain ⟨s, hs, ht⟩ := List.mem_flatMap.mp ht
    obtain ⟨i, hi⟩ := Array.mem_iff_getElem?.mp (Array.mem_toList_iff.mp hs)
    cases hlabel : t.label with
    | none => rfl
    | some label =>
      have hepsilon : t.isEpsilon = false := by rw [Transition.isEpsilon, hlabel]; rfl
      obtain ⟨e, _, hranges, _⟩ := h.complete [i] i (List.mem_singleton_self i) s hi t ht hepsilon
      rw [Transition.ranges?, hlabel] at hranges
      exact Matcher.isSingle_of_ranges? hranges

/-- Only what takes one character after the other is made deterministic. -/
theorem convertible_of_toDfa {limit : Nat} {base nextId : UInt32}
    (hrun : (a.toDfaWithLimit limit).run base = (.ok dfa, nextId)) :
    a.AllOpen ∧ a.supportsLockstep = true := by
  obtain ⟨_, _, _, _, hof, _⟩ := determinized_within_limit hrun
  exact ⟨hof.allOpen, hof.supportsLockstep⟩

/-! What can be made deterministic. -/

theorem isOk_mapM {α β : Type} (f : α → Except Error β) (items : List α) :
    (items.mapM f).isOk = items.all fun x => (f x).isOk := by
  induction items with
  | nil => rfl
  | cons x rest ih =>
    rw [List.mapM_cons, List.all_cons, ← ih]
    cases f x with
    | error e => rfl
    | ok y => cases rest.mapM f <;> rfl

/-- Whether a state has edges depends on what it asks for and on what its transitions take. -/
theorem isOk_stateEdges (s : State) :
    (stateEdges s).isOk = (s.action.isNone && !s.marks.hasAssertion &&
      (s.transitions.map (·.label)).all fun label =>
        label.isNone || (label.bind (·.matcher.ranges?)).isSome) := by
  unfold stateEdges
  simp only [List.all_map, Function.comp_def]
  cases s.action with
  | some action => rfl
  | none =>
    cases s.marks.hasAssertion with
    | true => rfl
    | false =>
      dsimp
      rw [isOk_mapM, List.all_filter]
      congr 1
      funext t
      unfold Transition.isEpsilon Transition.ranges?
      cases t.label with
      | none => rfl
      | some label =>
        rw [Option.bind_some]
        cases label.matcher.ranges? <;> rfl

/-- Every state has edges. -/
def Convertible (a : Automaton) : Prop := ∀ s ∈ a.states, (stateEdges s).isOk = true

theorem isOk_mapM_stateEdges :
    (a.states.mapM stateEdges).isOk = true ↔ a.Convertible := by
  have hlist : (a.states.mapM stateEdges).isOk = (a.states.toList.mapM stateEdges).isOk := by
    rw [Array.mapM_eq_mapM_toList]
    cases a.states.toList.mapM stateEdges <;> rfl
  rw [hlist, isOk_mapM, List.all_eq_true]
  simp only [Array.mem_toList_iff, Convertible]

theorem isOk_stateEdges_of_thins {s s' : State} (h : s'.Thins s)
    (hs : (stateEdges s).isOk = true) : (stateEdges s').isOk = true := by
  rw [isOk_stateEdges, Bool.and_eq_true, List.all_eq_true] at hs ⊢
  rw [h.action_eq, h.marks_eq]
  exact ⟨hs.1, fun label hlabel => hs.2 label (h.labels.subset hlabel)⟩

theorem isOk_stateEdges_of_onlyLeadsTo {s : State} {next : Nat} (h : s.OnlyLeadsTo next) :
    (stateEdges s).isOk = true := by
  obtain ⟨hplain, t, htransitions, hepsilon, _⟩ := h
  simp only [State.isPlain, Bool.and_eq_true] at hplain
  have hmarks : s.marks = .empty := congrArg Marks.mk (eq_of_beq hplain.1.1.2)
  rw [isOk_stateEdges, hplain.1.2, hmarks, htransitions]
  have hnone : t.label.isNone = true := hepsilon
  simp [hnone, show Marks.empty.hasAssertion = false by decide]

theorem convertible_of_isOk {limit : Nat} {base : UInt32}
    (h : ((a.toDfaWithLimit limit).run base).1.isOk = true) :
    a.Convertible := by
  rw [← isOk_mapM_stateEdges]
  unfold toDfaWithLimit at h
  split at h
  · cases h
  · split at h
    · cases h
    · rename_i edges hedges
      rw [hedges]
      rfl

/-- What can be made deterministic is refused only where the sets are too many. -/
theorem Convertible.error_eq (h : a.Convertible) {i : Nat} (hi : a.initial = some i)
    {limit : Nat} {base : UInt32} {e : Error}
    (he : ((a.toDfaWithLimit limit).run base).1 = .error e) :
    e = (AutomatonFault.tooManySubsets limit).error := by
  obtain ⟨edges, hedges⟩ := exists_of_isOk (isOk_mapM_stateEdges.mpr h)
  exact toDfaWithLimit_error hi hedges he

/-! Deterministic automata. -/

namespace Determines

/-- The result of the subset construction has no more states than there are numbers. -/
theorem of_toDfa {limit : Nat} (hlimit : max limit 1 ≤ UInt32.size) {base nextId : UInt32}
    (hrun : (a.toDfaWithLimit limit).run base = (.ok dfa, nextId)) : Determines a dfa := by
  obtain ⟨initial, edges, sets, hinitial, hof, hcount, hmade⟩ := determinized_within_limit hrun
  have hcheck : dfa.checkIntegrity = .ok () :=
    hmade.checkIntegrity_iff.mpr (by rw [hmade.size_eq]; exact Nat.le_trans hcount hlimit)
  exact ⟨hmade.kind_eq, (isDeterministic_iff dfa).mp hmade.isDeterministic_eq_true,
    (checkIntegrity_iff dfa).mp hcheck, ⟨0, hmade.initial_eq⟩, hmade.accepts_eq hof hinitial⟩

/-- What a simplification leaves of the automaton is deterministic as well. -/
theorem restates {b : Automaton} (h : Determines a dfa) (hrestates : Restates dfa b) :
    Determines a b where
  kind_eq := hrestates.kind_eq.trans h.kind_eq
  deterministic := hrestates.deterministic h.deterministic
  wellFormed := hrestates.wellFormed
  exists_initial := hrestates.exists_initial
  accepts_eq input := (hrestates.accepts_eq input).trans (h.accepts_eq input)

theorem withFlags (h : Determines a dfa) (flags : Flags) :
    Determines a { dfa with flags := flags } := by
  obtain ⟨i, hi⟩ := h.exists_initial
  exact h.restates (restates_withFlags h.wellFormed hi flags)

theorem congr {b : Automaton} (h : Determines a dfa)
    (haccepts : ∀ input, a.accepts input = b.accepts input) : Determines b dfa :=
  ⟨h.kind_eq, h.deterministic, h.wellFormed, h.exists_initial,
    fun input => (h.accepts_eq input).trans (haccepts input)⟩

/-- Minimizing succeeds. -/
theorem exists_minimize (h : Determines a dfa) (base : UInt32) :
    ∃ least nextId, dfa.minimize.run base = (.ok least, nextId) ∧ Determines a least := by
  obtain ⟨initial, hinitial⟩ := h.exists_initial
  have hfirst : dfa.reachable[0]? = some initial := by
    rw [reachable, hinitial]
    exact Graph.breadthFirst_start (h.wellFormed.initial_lt initial hinitial)
  have hreached : initial ∈ dfa.reachable := List.mem_of_getElem? hfirst
  obtain ⟨table, htable, htabulates⟩ := exists_moveTable h.deterministic h.wellFormed
  have hq := quotients_quotient htabulates fun s hs => by
    rwa [← Option.some.inj (hinitial.symm.trans hs)]
  have hstart := hq.initial_eq initial hinitial
  obtain ⟨least, nextId, hrun, hleast⟩ := exists_ofQuotient
    (hstart ▸ hq.block_lt initial hreached) hq.inside dfa.flags base
  have hwords := hleast.deterministic hq
  have hcount : least.stateCount ≤ UInt32.size := by
    have hblocks : table.quotient.order.Subperm (List.range table.quotient.edges.size) :=
      List.subperm_of_subset hleast.nodup fun b hb => List.mem_range.mpr (hleast.inside b hb)
    have hreachable : dfa.reachable.Subperm (List.range dfa.stateCount) :=
      List.subperm_of_subset (nodup_reachable dfa) fun s hs =>
        List.mem_range.mpr (lt_of_mem_reachable hs)
    calc least.stateCount = table.quotient.order.length := hleast.size_eq
      _ ≤ table.quotient.edges.size := by simpa using hblocks.length_le
      _ ≤ dfa.reachable.length := hq.size_le
      _ ≤ dfa.stateCount := by simpa using hreachable.length_le
      _ ≤ UInt32.size := h.wellFormed.stateCount_le
  refine ⟨least, nextId, ?_, hleast.kind_eq, hwords, hleast.wellFormed hcount,
    ⟨0, hleast.initial_eq⟩, fun input => ?_⟩
  · rw [minimize, (isDeterministic_iff dfa).mpr h.deterministic, hinitial, htable]
    exact hrun
  · rw [← h.accepts_eq, hwords.accepts_eq, h.deterministic.accepts_eq, hleast.initial_eq,
      hinitial, Option.any_some, Option.any_some]
    exact hleast.acceptsWord_eq hq input.toList 0 initial hreached (hstart ▸ hleast.start)

/-- Simplifying succeeds. It minimizes the automaton once more. -/
theorem exists_optimize (h : Determines a dfa) (base : UInt32) :
    ∃ b nextId, dfa.optimize.run base = ((.ok (), b), nextId) ∧ Determines a b := by
  obtain ⟨i, hi⟩ := h.exists_initial
  generalize hb : simplifyFully (2 * (dfa.stateCount + dfa.transitionCount) + 2) dfa = b
  have hsimplified : Determines a b := hb ▸ h.restates (restates_simplifyFully _ h.wellFormed hi)
  obtain ⟨least, nextId, hrun, hleast⟩ := hsimplified.exists_minimize base
  refine ⟨{ least with flags := b.flags }, nextId, ?_, hleast.withFlags b.flags⟩
  have hdeterministic := (isDeterministic_iff b).mpr hsimplified.deterministic
  simp only [optimize, hi, (checkIntegrity_iff dfa).mpr h.wellFormed, hb, hsimplified.kind_eq,
    hdeterministic, decide_true, Bool.and_self, if_true, StateT.run_bind, hrun]
  rfl

end Determines

end RegexEngine.Automaton
