import Mathlib.Data.List.Pairwise
import RegexEngine.Proofs.Automaton.Determinize

/-!
Deterministic automata as functions. A character leads from a state to at most one other, so whether
a word is accepted from a state is a recursion over the word. The test of being deterministic finds
exactly the automata for which this holds: nothing but transitions in every state, each of which
takes one character, and no character taken twice.
-/

namespace RegexEngine

/-- The assertions are the seven marks that have a name as such. -/
theorem Marks.hasAssertion_eq_false_iff (marks : Marks) :
    marks.hasAssertion = false ↔ ∀ p ∈ named, marks.contains p.2 = false := by
  -- Only the seven lowest bits count, so that there are few cases.
  have hlow : ∀ n < 128,
      n = 0 ↔ ∀ p ∈ named, (n &&& p.2.bits.toNat == p.2.bits.toNat) = false := by
    decide
  have hmask : ∀ p ∈ named, assertions.bits.toNat &&& p.2.bits.toNat = p.2.bits.toNat := by
    decide
  have hnone : marks.hasAssertion = false ↔ marks.bits.toNat &&& assertions.bits.toNat = 0 := by
    rw [hasAssertion, Bool.not_eq_false', isEmpty, beq_iff_eq, inter, ← UInt32.toNat_and,
      ← UInt32.toNat_inj]
    rfl
  have hlt : marks.bits.toNat &&& assertions.bits.toNat < 128 :=
    Nat.lt_of_le_of_lt Nat.and_le_right (by decide)
  rw [hnone, hlow _ hlt]
  refine forall₂_congr fun p hp => ?_
  rw [Nat.and_assoc, hmask p hp, ← UInt32.toNat_and, contains, beq_eq_false_iff_ne,
    beq_eq_false_iff_ne, ne_eq, ne_eq, UInt32.toNat_inj]

namespace Automaton

open CharRanges

/-- Every state has nothing but transitions, each takes one character, and no two the same. -/
structure Deterministic (a : Automaton) : Prop where
  allOpen : a.AllOpen
  ranges : ∀ (s : Nat) (state : State), a.states[s]? = some state →
    ∀ t ∈ state.transitions, ∃ r, t.ranges? = some r
  disjoint : ∀ (s : Nat) (state : State), a.states[s]? = some state →
    state.transitions.Pairwise
      fun t u => ∀ c, ¬ (t.matchesChar c = true ∧ u.matchesChar c = true)

theorem normal_empty : Normal CharRanges.empty.pairs :=
  ⟨.nil, by simp [CharRanges.empty], by simp [CharRanges.empty], by simp [CharRanges.empty]⟩

/-- Ranges that are found to be disjoint have no character in common, and none that was seen. -/
theorem pairwise_of_areDisjoint {transitions : List Transition} {seen : CharRanges}
    (hseen : Normal seen.pairs)
    (h : areDisjoint seen (transitions.map Transition.ranges?) = true) :
    (∀ t ∈ transitions, (∃ r, t.ranges? = some r) ∧
        ∀ c, t.matchesChar c = true → ¬ Covers seen.pairs c.toNat) ∧
      transitions.Pairwise
        fun t u => ∀ c, ¬ (t.matchesChar c = true ∧ u.matchesChar c = true) := by
  induction transitions generalizing seen with
  | nil => exact ⟨by simp, .nil⟩
  | cons t rest ih =>
    rw [List.map_cons] at h
    cases hr : t.ranges? with
    | none =>
      rw [hr] at h
      cases h
    | some r =>
      rw [hr, areDisjoint, Bool.and_eq_true, Bool.not_eq_true', Bool.eq_false_iff] at h
      obtain ⟨hnone, hrest⟩ := h
      obtain ⟨hnormal, hcovers⟩ := Transition.ranges?_spec hr
      obtain ⟨hall, hpairs⟩ := ih (normal_union hseen hnormal) hrest
      have hfresh (c : Char) (hc : t.matchesChar c = true) : ¬ Covers seen.pairs c.toNat := by
        rintro ⟨q, hq, hfirst, hlast⟩
        obtain ⟨p, hp, hlo, hhi⟩ := (hcovers c).mpr hc
        apply hnone
        refine List.any_eq_true.mpr ⟨p, hp, List.any_eq_true.mpr ⟨q, hq, ?_⟩⟩
        simp only [Bool.and_eq_true, decide_eq_true_eq]
        omega
      constructor
      · intro u hu
        rcases List.mem_cons.mp hu with rfl | hu
        · exact ⟨⟨r, hr⟩, hfresh⟩
        · refine ⟨(hall u hu).1, fun c hc hheld => (hall u hu).2 c hc ?_⟩
          exact (covers_union hseen hnormal _).mpr (.inl hheld)
      · refine List.pairwise_cons.mpr ⟨fun u hu c hboth => ?_, hpairs⟩
        apply (hall u hu).2 c hboth.2
        exact (covers_union hseen hnormal _).mpr (.inr ((hcovers c).mpr hboth.1))

/-- The test of being deterministic succeeds exactly on the automata that are. -/
theorem isDeterministic_iff (a : Automaton) : a.isDeterministic = true ↔ a.Deterministic := by
  unfold isDeterministic
  rw [Array.all_eq_true_iff_forall_mem]
  constructor
  · intro h
    have hstate {s : Nat} {state : State} (hs : a.states[s]? = some state) :
        (state.action = none ∧ state.marks.hasAssertion = false) ∧
          areDisjoint .empty (state.transitions.map Transition.ranges?) = true := by
      simpa using h state (Array.mem_of_getElem? hs)
    refine ⟨fun s state hs => (hstate hs).1, fun s state hs t ht => ?_, fun s state hs => ?_⟩
    · exact ((pairwise_of_areDisjoint normal_empty (hstate hs).2).1 t ht).1
    · exact (pairwise_of_areDisjoint normal_empty (hstate hs).2).2
  · intro h state hmem
    obtain ⟨s, hs⟩ := Array.mem_iff_getElem?.mp hmem
    have hdisjoint : areDisjoint .empty (state.transitions.map Transition.ranges?) = true :=
      Determinized.areDisjoint_of_pairwise normal_empty (h.ranges s state hs) (fun t _ c _ => covers_nil _)
        (h.disjoint s state hs)
    obtain ⟨haction, hmarks⟩ := h.allOpen s state hs
    rw [haction, hmarks, hdisjoint]
    rfl

/-- What no two items take, at most one of them takes. -/
theorem pairwise_iff_length_filter_le {α κ : Type} {takes : κ → α → Bool} {items : List α} :
    (items.Pairwise fun x y => ∀ k, ¬(takes k x = true ∧ takes k y = true)) ↔
      ∀ k, (items.filter (takes k)).length ≤ 1 := by
  have hlength (l : List α) : l.length ≤ 1 ↔ l.Pairwise fun _ _ => False := by
    match l with
    | [] => simp
    | [_] => simp
    | x :: y :: rest =>
      refine iff_of_false (by simp) fun h => ?_
      exact (List.pairwise_cons.mp h).1 y List.mem_cons_self
  have hfilter (k : κ) : (items.filter (takes k)).length ≤ 1 ↔
      items.Pairwise fun x y => takes k x = true → takes k y = true → False := by
    rw [hlength, List.pairwise_filter]
  simp only [hfilter, List.pairwise_iff_getElem]
  constructor
  · intro h k i j hi hj hij hx hy
    exact h i j hi hj hij k ⟨hx, hy⟩
  · intro h i j hi hj hij k hboth
    exact h k i j hi hj hij hboth.1 hboth.2

/-- The test of being deterministic, in terms of what is done with an input: no state has an action
or an assertion, every transition has a label that takes one character at a time, and of the
transitions of a state at most one takes a character. -/
theorem isDeterministic_exact (a : Automaton) :
    a.isDeterministic = true ↔
      ∀ state ∈ a.states,
        (state.action = none ∧ ∀ p ∈ Marks.named, state.marks.contains p.2 = false) ∧
        (∀ t ∈ state.transitions, ∃ label, t.label = some label ∧
          ∀ input position next,
            label.matcher.matchAt? input position = some next → next = position + 1) ∧
        ∀ c, (state.transitions.filter (·.matchesChar c)).length ≤ 1 := by
  have hlabel (t : Transition) : (∃ r, t.ranges? = some r) ↔ ∃ label, t.label = some label ∧
      ∀ input position next,
        label.matcher.matchAt? input position = some next → next = position + 1 := by
    simp only [← Matcher.isSingle_iff, ← Matcher.isSome_ranges?]
    rw [← Option.isSome_iff_exists, Transition.ranges?]
    cases t.label <;> simp
  rw [isDeterministic_iff]
  constructor
  · intro h state hmem
    obtain ⟨s, hs⟩ := Array.mem_iff_getElem?.mp hmem
    obtain ⟨haction, hmarks⟩ := h.allOpen s state hs
    exact ⟨⟨haction, state.marks.hasAssertion_eq_false_iff.mp hmarks⟩,
      fun t ht => (hlabel t).mp (h.ranges s state hs t ht),
      pairwise_iff_length_filter_le.mp (h.disjoint s state hs)⟩
  · intro h
    have hstate {s : Nat} {state : State} (hs : a.states[s]? = some state) :=
      h state (Array.mem_of_getElem? hs)
    refine ⟨fun s state hs => ?_, fun s state hs t ht => ?_, fun s state hs => ?_⟩
    · obtain ⟨⟨haction, hmarks⟩, -⟩ := hstate hs
      exact ⟨haction, state.marks.hasAssertion_eq_false_iff.mpr hmarks⟩
    · exact (hlabel t).mpr ((hstate hs).2.1 t ht)
    · exact pairwise_iff_length_filter_le.mpr (hstate hs).2.2

/-! Following words. -/

/-- Where a character leads from a state: the first transition that takes it counts. -/
def next? (a : Automaton) (s : Nat) (c : Char) : Option Nat :=
  a.states[s]?.bind fun state => (state.transitions.find? (·.matchesChar c)).map (·.target)

/-- True for states that accept. -/
def acceptsAt (a : Automaton) (s : Nat) : Bool := a.states[s]?.any (·.accepting)

/-- True when a word leads from a state to one that accepts. -/
def acceptsWord (a : Automaton) : Nat → List Char → Bool
  | s, [] => a.acceptsAt s
  | s, c :: rest =>
    match a.next? s c with
    | some t => acceptsWord a t rest
    | none => false

theorem next?_eq_none_of_le {a : Automaton} {s : Nat} (h : a.stateCount ≤ s) (c : Char) :
    a.next? s c = none := by
  rw [next?, Array.getElem?_eq_none h, Option.bind_none]

theorem isEpsilon_eq_false_of_ranges {t : Transition} {r : CharRanges} (h : t.ranges? = some r) :
    t.isEpsilon = false := by
  obtain ⟨label, hlabel, _⟩ := Option.bind_eq_some_iff.mp h
  rw [Transition.isEpsilon, hlabel, Option.isNone_some]

namespace Deterministic

variable {a : Automaton} {input : Array Char}

theorem epsilonTargets_eq_nil (h : a.Deterministic) (s : Nat) : a.epsilonTargets s = [] := by
  unfold epsilonTargets
  split
  · rename_i state hs
    rw [State.epsilonTargets, List.map_eq_nil_iff, List.filter_eq_nil_iff]
    intro t ht
    obtain ⟨r, hr⟩ := h.ranges s state hs t ht
    rw [isEpsilon_eq_false_of_ranges hr]
    exact Bool.false_ne_true
  · rfl

/-- The states that a state leads to with a character are one at most. -/
theorem mem_targetsOn_iff (h : a.Deterministic) {s t : Nat} {c : Char} :
    t ∈ a.targetsOn c [s] ↔ a.next? s c = some t := by
  unfold targetsOn next?
  cases hs : a.states[s]? with
  | none => simp [hs]
  | some state =>
    simp only [List.flatMap_cons, List.flatMap_nil, List.append_nil, hs, Option.bind_some,
      List.mem_map, List.mem_filter, Option.map_eq_some_iff]
    constructor
    · rintro ⟨step, ⟨hstep, hc⟩, rfl⟩
      obtain ⟨first, hfirst⟩ := Option.isSome_iff_exists.mp
        (List.find?_isSome (p := fun t : Transition => t.matchesChar c).mpr ⟨step, hstep, hc⟩)
      refine ⟨first, hfirst, ?_⟩
      have htaken : first.matchesChar c = true :=
        List.find?_some (p := fun t : Transition => t.matchesChar c) hfirst
      by_contra hother
      have hne : first ≠ step := fun heq => hother (heq ▸ rfl)
      have hsymm : Std.Symm fun t u : Transition =>
          ∀ c, ¬ (t.matchesChar c = true ∧ u.matchesChar c = true) :=
        ⟨fun _ _ hapart c hboth => hapart c hboth.symm⟩
      exact (h.disjoint s state hs).forall (List.mem_of_find?_eq_some hfirst) hstep hne c
        ⟨htaken, hc⟩
    · rintro ⟨step, hstep, rfl⟩
      have htaken : step.matchesChar c = true :=
        List.find?_some (p := fun t : Transition => t.matchesChar c) hstep
      exact ⟨step, ⟨List.mem_of_find?_eq_some hstep, htaken⟩, rfl⟩

/-- What can be entered from a state is the state itself, if it is there. -/
theorem mem_enteredAt_iff (h : a.Deterministic) (position s t : Nat) :
    t ∈ a.enteredAt input position [s] ↔ t = s ∧ s < a.stateCount := by
  by_cases hs : s < a.stateCount
  · rw [h.allOpen.mem_enteredAt_singleton h.epsilonTargets_eq_nil hs]
    exact (and_iff_left hs).symm
  · refine iff_of_false (fun ht => hs ?_) fun ht => hs ht.2
    obtain ⟨hopen, u, hu, hpath⟩ := (mem_enteredAt position [s] t).mp ht
    obtain rfl := List.mem_singleton.mp hu
    rcases hpath.cases_head with rfl | ⟨v, hstep, _⟩
    · exact isOpenAt_lt hopen
    · exact isOpenAt_lt hstep.1

/-- Following sets of states from a single one is following the word. -/
theorem acceptsFrom_eq (h : a.Deterministic) (rest : List Char) :
    ∀ position s, a.acceptsFrom input (a.enteredAt input position [s]) position rest =
      a.acceptsWord s rest := by
  induction rest with
  | nil =>
    intro position s
    rw [acceptsFrom, acceptsWord, Bool.eq_iff_iff, List.any_eq_true]
    simp only [h.mem_enteredAt_iff, and_assoc, exists_eq_left]
    refine and_iff_right_of_imp fun haccepts => ?_
    by_contra hs
    rw [Array.getElem?_eq_none (Nat.le_of_not_lt hs)] at haccepts
    cases haccepts
  | cons c rest ih =>
    intro position s
    rw [acceptsFrom_cons, acceptsWord]
    have htargets (t : Nat) :
        t ∈ a.targetsOn c (a.enteredAt input position [s]) ↔ a.next? s c = some t := by
      rw [mem_targetsOn]
      simp only [h.mem_enteredAt_iff, and_assoc, exists_eq_left, h.mem_targetsOn_iff]
      refine and_iff_right_of_imp fun hnext => ?_
      by_contra hs
      rw [next?_eq_none_of_le (Nat.le_of_not_lt hs)] at hnext
      cases hnext
    cases hnext : a.next? s c with
    | none =>
      have hstuck : a.targetsOn c (a.enteredAt input position [s]) = [] := by
        rw [List.eq_nil_iff_forall_not_mem]
        intro t ht
        rw [htargets, hnext] at ht
        cases ht
      rw [hstuck, enteredAt_nil, acceptsFrom_nil_states]
    | some t =>
      have hsame (u : Nat) :
          u ∈ a.enteredAt input (position + 1) (a.targetsOn c (a.enteredAt input position [s])) ↔
            u ∈ a.enteredAt input (position + 1) [t] := by
        have hall (v : Nat) : v ∈ a.targetsOn c (a.enteredAt input position [s]) ↔ v ∈ [t] := by
          rw [htargets, hnext, Option.some.injEq, List.mem_singleton]
          exact eq_comm
        rw [mem_enteredAt, mem_enteredAt]
        simp only [Enters, hall]
      rw [a.acceptsFrom_congr rest (position + 1) hsame]
      exact ih (position + 1) t

/-- A deterministic automaton accepts an input if the input leads from the initial state to one that
accepts. -/
theorem accepts_eq (h : a.Deterministic) (input : Array Char) :
    a.accepts input = a.initial.any (a.acceptsWord · input.toList) := by
  unfold accepts
  cases a.initial with
  | none => rfl
  | some s => exact h.acceptsFrom_eq input.toList 0 s

/-- A run leads from a state to acceptance exactly if the word does. -/
theorem wins_iff (h : a.Deterministic) (input : Array Char) (s : Nat) :
    a.Wins input s 0 ↔ a.acceptsWord s input.toList = true := by
  have hruns := acceptsFrom_enteredAt (a := a) input.toList 0 [s] rfl (Nat.zero_le _)
  rw [h.acceptsFrom_eq] at hruns
  simpa using hruns.symm

end Deterministic

end Automaton

end RegexEngine
