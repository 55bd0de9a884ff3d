import Mathlib.Data.Set.Card
import Mathlib.Data.Set.Finite.Powerset
import RegexEngine.Proofs.Automaton.Determines

/-!
Which sets of states a deterministic automaton is made of. `Met` is the smallest family that holds
what the initial state leads to without input, and with a set what it leads to with a character that
takes some member on. For every bound the rounds of the subset construction come to an end. They
find the sets of this family and no others: the automaton is refused if there are more of them than
the bound, and otherwise its states stand for the sets, one for one, and can all be reached.

A set that is numbered is of the family, because every move takes some character. A set of the
family is numbered, because every character that takes a member on is taken by a move. Both lists
are closures, so they are the same if they have the same members.
-/

namespace RegexEngine.Automaton

open CharRanges
open Subsets (Grown RoundsEnd begun leaving moves)

variable {nfa dfa : Automaton} {edges : Array (List Edge)} {initial : Nat}

/-- The states that some states lead to without input. -/
def withoutInput (a : Automaton) (states : Set Nat) : Set Nat :=
  {t | ∃ s ∈ states, Relation.ReflTransGen (fun u v => v ∈ a.epsilonTargets u) s t}

/-- The states that some states lead to with a character. -/
def withChar (a : Automaton) (states : Set Nat) (c : Char) : Set Nat :=
  {t | ∃ s ∈ states, ∃ state, a.states[s]? = some state ∧
    ∃ step ∈ state.transitions, step.matchesChar c = true ∧ step.target = t}

/-- The smallest family of sets of states that holds what the initial state leads to without input,
and with a set what it leads to with a character. -/
inductive Met (a : Automaton) (initial : Nat) : Set Nat → Prop
  | start : Met a initial (a.withoutInput {initial})
  | next {states : Set Nat} {c : Char} (h : Met a initial states)
      (hsome : (a.withChar states c).Nonempty) :
      Met a initial (a.withoutInput (a.withChar states c))

/-- A deterministic automaton with a state for each set of the family. -/
structure RealizesFamily (nfa : Automaton) (initial : Nat) (dfa : Automaton)
    (family : List (Set Nat)) : Prop where
  distinct : family.Nodup
  mem_iff : ∀ states, states ∈ family ↔ nfa.Met initial states
  size_eq : dfa.stateCount = family.length
  start : dfa.initial = some 0 ∧ family[0]? = some (nfa.withoutInput {initial})
  accepting_iff : ∀ (place : Nat) (states : Set Nat), family[place]? = some states →
    ((∃ state, dfa.states[place]? = some state ∧ state.accepting = true) ↔
      ∃ s ∈ states, ∃ state, nfa.states[s]? = some state ∧ state.accepting = true)
  leads_iff : ∀ (place : Nat) (states : Set Nat), family[place]? = some states →
    ∀ (c : Char) (next : Nat), next ∈ dfa.targetsOn c [place] ↔
      (nfa.withChar states c).Nonempty ∧
        family[next]? = some (nfa.withoutInput (nfa.withChar states c))
  reached : ∀ place < dfa.stateCount, place ∈ dfa.reachable

/-! Lists of states and the sets of their members. -/

/-- The members of a list. -/
def members (states : List Nat) : Set Nat := {s | s ∈ states}

@[simp] theorem mem_members {states : List Nat} {s : Nat} : s ∈ members states ↔ s ∈ states :=
  Iff.rfl

theorem withChar_members (nfa : Automaton) (states : List Nat) (c : Char) :
    nfa.withChar (members states) c = members (nfa.targetsOn c states) := by
  ext t
  exact (mem_targetsOn_iff_exists nfa states c t).symm

/-- A closure lists its members in ascending order, each one once. -/
theorem closure_ext {states others : List Nat}
    (h : members (nfa.closure states) = members (nfa.closure others)) :
    nfa.closure states = nfa.closure others := by
  have hnodup (start : List Nat) : (nfa.closure start).Nodup :=
    (List.mergeSort_perm _ _).nodup_iff.mpr (Graph.depthFirst_fresh _ _).2
  refine List.Perm.eq_of_pairwise (fun _ _ _ _ => Nat.le_antisymm)
    (List.pairwise_mergeSort' (· ≤ ·) _) (List.pairwise_mergeSort' (· ≤ ·) _) ?_
  exact (List.perm_ext_iff_of_nodup (hnodup _) (hnodup _)).mpr fun t => by
    rw [← mem_members, h, mem_members]

/-! Automata in which transitions end inside. -/

theorem WellFormed.target_lt (hwf : nfa.WellFormed) {s t : Nat} {state : State}
    (hs : nfa.states[s]? = some state) {step : Transition} (hstep : step ∈ state.transitions)
    (ht : step.target = t) : t < nfa.stateCount :=
  ht ▸ (hwf.fits s state hs).target_lt step hstep

theorem WellFormed.epsilonTarget_lt (hwf : nfa.WellFormed) {s t : Nat}
    (ht : t ∈ nfa.epsilonTargets s) : t < nfa.stateCount := by
  unfold epsilonTargets at ht
  split at ht
  · rename_i state hs
    obtain ⟨step, hstep, htarget⟩ := List.mem_map.mp ht
    exact hwf.target_lt hs (List.mem_filter.mp hstep).1 htarget
  · cases ht

/-- A closure is what its start leads to without input. -/
theorem WellFormed.members_closure (hwf : nfa.WellFormed) {start : List Nat}
    (hstart : ∀ s ∈ start, s < nfa.stateCount) :
    members (nfa.closure start) = nfa.withoutInput (members start) := by
  ext t
  rw [mem_members, closure, List.mem_mergeSort, Graph.mem_depthFirst_unseen]
  constructor
  · rintro ⟨s, hs, _, hpath⟩
    exact ⟨s, hs, Relation.ReflTransGen.mono (fun _ _ h => h.1) _ _ hpath⟩
  · rintro ⟨s, hs, hpath⟩
    refine ⟨s, hs, hstart s hs, ?_⟩
    exact Relation.ReflTransGen.mono (fun _ _ h => ⟨h, hwf.epsilonTarget_lt h⟩) _ _ hpath

theorem WellFormed.withoutInput_lt (hwf : nfa.WellFormed) {states : Set Nat}
    (hstates : ∀ s ∈ states, s < nfa.stateCount) :
    ∀ t ∈ nfa.withoutInput states, t < nfa.stateCount := by
  rintro t ⟨s, hs, hpath⟩
  cases hpath with
  | refl => exact hstates t hs
  | tail _ hstep => exact hwf.epsilonTarget_lt hstep

theorem WellFormed.withChar_lt (hwf : nfa.WellFormed) {states : Set Nat} {c : Char} :
    ∀ t ∈ nfa.withChar states c, t < nfa.stateCount := by
  rintro t ⟨_, _, _, hs, _, hstep, _, ht⟩
  exact hwf.target_lt hs hstep ht

/-- There are finitely many sets of states, and with them finitely many sets that are met. -/
theorem WellFormed.finite_met (hwf : nfa.WellFormed) (hinitial : initial < nfa.stateCount) :
    {states | nfa.Met initial states}.Finite := by
  refine (Set.finite_Iio nfa.stateCount).finite_subsets.subset fun states hmet => ?_
  cases hmet with
  | start => exact hwf.withoutInput_lt (by simpa using hinitial)
  | next _ _ => exact hwf.withoutInput_lt hwf.withChar_lt

/-! The sets that the construction numbers. -/

/-- What some states lead to with a character has the closure that the edges say. -/
theorem Edges.members_closure (hof : Edges nfa edges) (hwf : nfa.WellFormed) (states : List Nat)
    (c : Char) :
    members (nfa.closure (targetsAt (leaving edges states) c.toNat)) =
      nfa.withoutInput (nfa.withChar (members states) c) := by
  have htargets : members (targetsAt (leaving edges states) c.toNat) =
      nfa.withChar (members states) c := by
    rw [withChar_members]
    ext t
    exact hof.mem_targetsAt_iff states c t
  have hinside : ∀ t ∈ members (targetsAt (leaving edges states) c.toNat), t < nfa.stateCount := by
    rw [htargets]
    exact hwf.withChar_lt
  rw [← htargets]
  exact hwf.members_closure hinside

/-- A character leads on from a set if some edge takes it. -/
theorem Edges.withChar_nonempty_iff (hof : Edges nfa edges) (states : List Nat) (c : Char) :
    (nfa.withChar (members states) c).Nonempty ↔ targetsAt (leaving edges states) c.toNat ≠ [] := by
  rw [withChar_members, ne_eq, List.eq_nil_iff_forall_not_mem, not_forall_not]
  exact exists_congr fun t => (hof.mem_targetsAt_iff states c t).symm

theorem WellFormed.members_closure_initial (hwf : nfa.WellFormed)
    (hinitial : initial < nfa.stateCount) :
    members (nfa.closure [initial]) = nfa.withoutInput {initial} := by
  rw [hwf.members_closure (by simpa using hinitial)]
  congr 1
  ext s
  simp

/-- Every set that is numbered is of the family, and listed as a closure. -/
theorem Edges.met_of_grown (hof : Edges nfa edges) (hwf : nfa.WellFormed)
    (hinitial : initial < nfa.stateCount) {sets : List (List Nat)} (hgrown : Grown nfa edges sets)
    (hstart : sets[0]? = some (nfa.closure [initial])) (place : Nat) :
    ∀ states, sets[place]? = some states →
      nfa.Met initial (members states) ∧ ∃ start, states = nfa.closure start := by
  induction place using Nat.strong_induction_on with
  | _ place ih =>
    intro states hplace
    cases place with
    | zero =>
      obtain rfl := Option.some.inj (hstart.symm.trans hplace)
      rw [hwf.members_closure_initial hinitial]
      exact ⟨.start, _, rfl⟩
    | succ place =>
      obtain ⟨earlier, hle, source, hsource, move, hmove, rfl⟩ := hgrown place states hplace
      obtain ⟨c, hcovers⟩ := Subsets.exists_char_of_mem_moves hmove
      have htargets := Subsets.targetsAt_of_covers hmove hcovers
      have hsome := ((Subsets.moves_grouped _).sound move hmove).2.1
      rw [← htargets] at hsome ⊢
      refine ⟨?_, _, rfl⟩
      rw [hof.members_closure hwf]
      exact .next (ih earlier (by omega) source hsource).1
        ((hof.withChar_nonempty_iff source c).mpr hsome)

/-- No set is numbered twice. -/
theorem Edges.nodup_members (hof : Edges nfa edges) (hwf : nfa.WellFormed)
    (hinitial : initial < nfa.stateCount) {sets : List (List Nat)} (hgrown : Grown nfa edges sets)
    (hstart : sets[0]? = some (nfa.closure [initial])) (hnodup : sets.Nodup) :
    (sets.map members).Nodup := by
  refine hnodup.map_on fun states hstates others hothers heq => ?_
  obtain ⟨place, hplace⟩ := List.mem_iff_getElem?.mp hstates
  obtain ⟨other, hother⟩ := List.mem_iff_getElem?.mp hothers
  obtain ⟨_, _, rfl⟩ := hof.met_of_grown hwf hinitial hgrown hstart place states hplace
  obtain ⟨_, _, rfl⟩ := hof.met_of_grown hwf hinitial hgrown hstart other others hother
  exact closure_ext heq

/-- Every set that is numbered is of the family. -/
theorem Edges.met_of_mem (hof : Edges nfa edges) (hwf : nfa.WellFormed)
    (hinitial : initial < nfa.stateCount) {sets : List (List Nat)} (hgrown : Grown nfa edges sets)
    (hstart : sets[0]? = some (nfa.closure [initial])) {states : Set Nat}
    (h : states ∈ sets.map members) : nfa.Met initial states := by
  obtain ⟨listed, hlisted, rfl⟩ := List.mem_map.mp h
  obtain ⟨place, hplace⟩ := List.mem_iff_getElem?.mp hlisted
  exact (hof.met_of_grown hwf hinitial hgrown hstart place listed hplace).1

namespace Determinized

variable {base : UInt32} {sets : List (List Nat)}

/-- A transition that takes a character leads from a set of the family to the next. -/
theorem leads_to (h : Determinized nfa edges base initial dfa sets) (hof : Edges nfa edges)
    (hwf : nfa.WellFormed) {place : Nat} {states : List Nat} (hplace : sets[place]? = some states)
    {c : Char} {next : Nat} (hnext : next ∈ dfa.targetsOn c [place]) :
    (nfa.withChar (members states) c).Nonempty ∧
      (sets.map members)[next]? =
        some (nfa.withoutInput (nfa.withChar (members states) c)) := by
  obtain ⟨s, hs, _, hcarries⟩ := h.state place states hplace
  obtain ⟨_, hself, s', hs', step, hstep, hmatches, rfl⟩ :=
    (mem_targetsOn_iff_exists dfa [place] c next).mp hnext
  obtain rfl := List.mem_singleton.mp hself
  obtain rfl := Option.some.inj (hs.symm.trans hs')
  obtain ⟨move, hmove, hcarry⟩ := exists_move_of_mem hcarries hstep
  have htargets := Subsets.targetsAt_of_covers hmove ((hcarry.takes c).mp hmatches)
  refine ⟨(hof.withChar_nonempty_iff states c).mpr ?_, ?_⟩
  · rw [htargets]
    exact ((Subsets.moves_grouped _).sound move hmove).2.1
  · rw [List.getElem?_map, target_of_matches hcarries hstep hmatches, Option.map_some,
      hof.members_closure hwf]

/-- A character that takes a member on is taken by a transition. -/
theorem exists_target (h : Determinized nfa edges base initial dfa sets) (hof : Edges nfa edges)
    {place : Nat} {states : List Nat} (hplace : sets[place]? = some states) {c : Char}
    (hsome : (nfa.withChar (members states) c).Nonempty) :
    ∃ next, next ∈ dfa.targetsOn c [place] := by
  obtain ⟨s, hs, _, hcarries⟩ := h.state place states hplace
  obtain ⟨u, hu⟩ := List.exists_mem_of_ne_nil _ ((hof.withChar_nonempty_iff states c).mp hsome)
  obtain ⟨step, hstep, hmatches⟩ := exists_matches hof hcarries hu
  exact ⟨step.target, (mem_targetsOn_iff_exists dfa [place] c _).mpr
    ⟨place, List.mem_singleton_self place, s, hs, step, hstep, hmatches, rfl⟩⟩

/-- Every set of the family is numbered. -/
theorem mem_of_met (h : Determinized nfa edges base initial dfa sets) (hof : Edges nfa edges)
    (hwf : nfa.WellFormed) (hinitial : initial < nfa.stateCount) {states : Set Nat}
    (hmet : nfa.Met initial states) : states ∈ sets.map members := by
  induction hmet with
  | start =>
    rw [← hwf.members_closure_initial hinitial]
    exact List.mem_map_of_mem (List.mem_of_getElem? h.start)
  | next _ hsome ih =>
    obtain ⟨listed, hlisted, rfl⟩ := List.mem_map.mp ih
    obtain ⟨place, hplace⟩ := List.mem_iff_getElem?.mp hlisted
    obtain ⟨next, hnext⟩ := h.exists_target hof hplace hsome
    exact List.mem_of_getElem? (h.leads_to hof hwf hplace hnext).2

/-- Every state can be reached, since a set is numbered where an earlier one leads to it. -/
theorem mem_reachable_of_grown (h : Determinized nfa edges base initial dfa sets)
    (hgrown : Grown nfa edges sets) (place : Nat) (hplace : place < sets.length) :
    place ∈ dfa.reachable := by
  induction place using Nat.strong_induction_on with
  | _ place ih =>
    have hinside : place < dfa.stateCount := by rwa [h.size_eq]
    cases place with
    | zero =>
      refine mem_reachable.mpr ⟨0, ?_, hinside, .refl⟩
      rw [h.initial_eq]
      exact List.mem_singleton_self 0
    | succ place =>
      obtain ⟨earlier, hle, source, hsource, move, hmove, heq⟩ :=
        hgrown place _ (List.getElem?_eq_getElem hplace)
      obtain ⟨s, hs, _, hcarries⟩ := h.state earlier source hsource
      obtain ⟨k, hk, rfl⟩ := List.mem_iff_getElem.mp hmove
      have hk' := hcarries.length_eq ▸ hk
      have htarget := (hcarries.get hk hk').target
      have hplaced := List.getElem?_eq_getElem hplace
      rw [heq] at hplaced
      have hsame := h.unique _ _ _ htarget hplaced
      refine mem_reachable_of_successor (ih earlier (by omega) (by omega)) ?_ hinside
      refine mem_targets_mem_successors ((mem_targets_iff hs).mpr ?_)
      exact ⟨_, List.getElem_mem hk', hsame⟩

/-- The states stand for the sets of the family. -/
theorem realizesFamily (h : Determinized nfa edges base initial dfa sets) (hof : Edges nfa edges)
    (hwf : nfa.WellFormed) (hinitial : initial < nfa.stateCount) (hgrown : Grown nfa edges sets)
    (hnodup : sets.Nodup) : RealizesFamily nfa initial dfa (sets.map members) := by
  have hdistinct := hof.nodup_members hwf hinitial hgrown h.start hnodup
  have hlisted {place : Nat} {states : Set Nat}
      (hplace : (sets.map members)[place]? = some states) :
      ∃ listed, sets[place]? = some listed ∧ members listed = states := by
    rw [List.getElem?_map] at hplace
    exact Option.map_eq_some_iff.mp hplace
  refine ⟨hdistinct, fun states => ⟨hof.met_of_mem hwf hinitial hgrown h.start,
    h.mem_of_met hof hwf hinitial⟩, ?_, ⟨h.initial_eq, ?_⟩, ?_, ?_, ?_⟩
  · rw [h.size_eq, List.length_map]
  · rw [List.getElem?_map, h.start, Option.map_some, hwf.members_closure_initial hinitial]
  · intro place states hplace
    obtain ⟨listed, hfound, rfl⟩ := hlisted hplace
    obtain ⟨s, hs, hstands, _⟩ := h.state place listed hfound
    simp [hs, hstands.accepting_eq, Option.any_eq_true]
  · intro place states hplace c next
    obtain ⟨listed, hfound, rfl⟩ := hlisted hplace
    refine ⟨h.leads_to hof hwf hfound, fun ⟨hsome, hnext⟩ => ?_⟩
    obtain ⟨other, hother⟩ := h.exists_target hof hfound hsome
    have hsame := hnext.trans (h.leads_to hof hwf hfound hother).2.symm
    have hlt := (List.getElem?_eq_some_iff.mp hnext).1
    rwa [(List.getElem?_inj hlt hdistinct).mp hsame]
  · intro place hplace
    rw [h.size_eq] at hplace
    exact h.mem_reachable_of_grown hgrown place hplace

end Determinized

/-! Making an automaton deterministic. -/

/-- A list without repetitions has as many members as places. -/
theorem ncard_of_nodup {family : List (Set Nat)} (h : family.Nodup) :
    {states | states ∈ family}.ncard = family.length := by
  classical
  rw [← List.toFinset_card_of_nodup h, ← Set.ncard_coe_finset, List.coe_toFinset]

/-- States without assertions and actions, whose labels take one character each, have edges. -/
theorem convertible_of_isSingle
    (hplain : ∀ s ∈ nfa.states, s.action = none ∧ s.marks.hasAssertion = false)
    (hsingle : ∀ s ∈ nfa.states, ∀ t ∈ s.transitions, t.label.all (·.matcher.isSingle) = true) :
    nfa.Convertible := by
  intro s hs
  obtain ⟨haction, hmarks⟩ := hplain s hs
  rw [isOk_stateEdges, haction, hmarks, List.all_map, Option.isNone_none, Bool.not_false,
    Bool.and_self, Bool.true_and, List.all_eq_true]
  intro t ht
  have htakes := hsingle s hs t ht
  cases hlabel : t.label with
  | none => simp [hlabel]
  | some label =>
    rw [hlabel, Option.all_some] at htakes
    simp [hlabel, Matcher.isSome_ranges?, htakes]

/-- Making an automaton deterministic, exactly. Where the automaton passes the integrity check, has
no assertions and no actions and takes one character at a time, every state has edges, and for every
bound of at least one state the rounds come to an end. The family of sets that are met is finite. If
it has more sets than the bound the automaton is refused, and otherwise there is a deterministic one
whose states stand for the sets of the family, one for one, all of which can be reached. -/
theorem toDfaWithLimit_exact (hinitial : nfa.initial = some initial)
    (hcheck : nfa.checkIntegrity = .ok ())
    (hplain : ∀ s ∈ nfa.states, s.action = none ∧ s.marks.hasAssertion = false)
    (hsingle : ∀ s ∈ nfa.states, ∀ t ∈ s.transitions, t.label.all (·.matcher.isSingle) = true)
    {limit : Nat} (hlimit : 1 ≤ limit) (base : UInt32) :
    ∃ (edges : Array (List Edge)) (result : Except Error Automaton) (nextId : UInt32),
      nfa.states.mapM stateEdges = .ok edges ∧
      RoundsEnd nfa edges limit (begun nfa initial base) (base + 1) result nextId ∧
      (nfa.toDfaWithLimit limit).run base = (result, nextId) ∧
      {states | nfa.Met initial states}.Finite ∧
      (limit < {states | nfa.Met initial states}.ncard →
        ∃ e, result = .error e ∧ e.kind = .automaton) ∧
      ({states | nfa.Met initial states}.ncard ≤ limit →
        ∃ dfa family, result = .ok dfa ∧ dfa.kind = .dfa ∧
          RealizesFamily nfa initial dfa family) := by
  have hwf := (checkIntegrity_iff nfa).mp hcheck
  have hinside := hwf.initial_lt initial hinitial
  have hconvertible := convertible_of_isSingle hplain hsingle
  obtain ⟨edges, hedges⟩ := exists_of_isOk (isOk_mapM_stateEdges.mpr hconvertible)
  have hof := edges_of_mapM hedges
  have hfinite := hwf.finite_met hinside
  obtain ⟨result, nextId, more, hrun, hends, hworked⟩ :=
    (Subsets.working_begun nfa edges base limit initial).run hof.normal (limit + 2) rfl
  refine ⟨edges, result, nextId, hedges, hends,
    (run_toDfaWithLimit hinitial hedges limit base).trans hrun, hfinite, ?_⟩
  cases result with
  | error e =>
    obtain ⟨hoverflows, hgrown⟩ := hworked
    have hcount := ncard_of_nodup (hof.nodup_members hwf hinside hgrown rfl hoverflows.nodup)
    have hsubset : {states | states ∈ ([nfa.closure [initial]] ++ more).map members} ⊆
        {states | nfa.Met initial states} := fun _ => hof.met_of_mem hwf hinside hgrown rfl
    have hle := Set.ncard_le_ncard hsubset hfinite
    rw [hcount, List.length_map] at hle
    have hover := hoverflows.limit_lt
    exact ⟨fun _ => ⟨e, rfl, hoverflows.error_eq ▸ rfl⟩, fun hwithin => by omega⟩
  | ok dfa =>
    have hmade := determinized_of_worked hworked
    obtain ⟨_, _, hfinal, _⟩ := hworked
    have hrealizes := hmade.realizesFamily hof hwf hinside hfinal.grown hfinal.built.nodup
    have hcount := ncard_of_nodup hrealizes.distinct
    simp only [hrealizes.mem_iff, List.length_map] at hcount
    have hwithin := hfinal.length_le
    rw [hcount]
    exact ⟨fun hover => by omega, fun _ => ⟨dfa, _, rfl, hmade.kind_eq, hrealizes⟩⟩

private theorem parse_twoWaysA : Matcher.parse ['a'] = .ok (.literal ['a'] false) := rfl

private theorem parse_twoWaysB : Matcher.parse ['b'] = .ok (.literal ['b'] false) := rfl

/-- An automaton that takes an `a` to two states, and a `b` to one of them. -/
private def twoWays : Automaton where
  kind := .nfa
  states := #[
    { State.new 0 false with
      transitions := [⟨0, 0, some ⟨['a'], .literal ['a'] false, parse_twoWaysA⟩, 0⟩,
        ⟨0, 0, some ⟨['b'], .literal ['b'] false, parse_twoWaysB⟩, 0⟩,
        ⟨0, 1, some ⟨['a'], .literal ['a'] false, parse_twoWaysA⟩, 0⟩] },
    .new 1 true]
  initial := some 0
  current := none
  flags := .empty
  lastError := none

private theorem withoutInput_twoWays (states : Set Nat) : twoWays.withoutInput states = states := by
  have hnone (u : Nat) : twoWays.epsilonTargets u = [] := by
    rcases u with _ | _ | u <;> rfl
  ext t
  constructor
  · rintro ⟨s, hs, hpath⟩
    rcases hpath.cases_head with rfl | ⟨u, hu, -⟩
    · exact hs
    · rw [hnone] at hu
      cases hu
  · exact fun ht => ⟨t, ht, .refl⟩

private theorem mem_withChar_twoWays {states : Set Nat} (hfirst : 0 ∈ states) {c : Char} {t : Nat} :
    t ∈ twoWays.withChar states c ↔ c = 'a' ∧ (t = 0 ∨ t = 1) ∨ c = 'b' ∧ t = 0 := by
  constructor
  · rintro ⟨s, -, state, hstate, step, hstep, hc, rfl⟩
    have htaken {wanted : Char} (h : Text.sameChar wanted c false = true) : c = wanted := by
      simp only [Text.sameChar, Bool.false_and, Bool.or_false, beq_iff_eq] at h
      exact h.symm
    rcases s with _ | _ | s
    · cases hstate
      rcases hstep with _ | ⟨_, _ | ⟨_, _ | ⟨_, ⟨⟩⟩⟩⟩
      · exact .inl ⟨htaken hc, .inl rfl⟩
      · exact .inr ⟨htaken hc, rfl⟩
      · exact .inl ⟨htaken hc, .inr rfl⟩
    · cases hstate
      cases hstep
    · cases hstate
  · have hleads {state : State} (hstate : twoWays.states[0]? = some state) (step : Transition)
        (hstep : step ∈ state.transitions) (hc : step.matchesChar c = true) :
        step.target ∈ twoWays.withChar states c :=
      ⟨0, hfirst, state, hstate, step, hstep, hc, rfl⟩
    rintro (⟨rfl, rfl | rfl⟩ | ⟨rfl, rfl⟩)
    · exact hleads rfl _ (.head _) rfl
    · exact hleads rfl _ (.tail _ (.tail _ (.head _))) rfl
    · exact hleads rfl _ (.tail _ (.head _)) rfl

/-- The first state alone is met, and both states together. -/
private theorem met_twoWays :
    {states | twoWays.Met 0 states} = {({0} : Set Nat), ({0, 1} : Set Nat)} := by
  have hboth {states : Set Nat} (hfirst : 0 ∈ states) : twoWays.withChar states 'a' = {0, 1} := by
    ext t
    simp [mem_withChar_twoWays hfirst]
  have hone {states : Set Nat} (hfirst : 0 ∈ states) : twoWays.withChar states 'b' = {0} := by
    ext t
    simp [mem_withChar_twoWays hfirst]
  have hstart : twoWays.Met 0 {0} := withoutInput_twoWays {0} ▸ Met.start
  have hnext : twoWays.Met 0 {0, 1} := by
    have hleads := hboth (Set.mem_singleton 0)
    have hmet := @Met.next _ _ _ 'a' hstart (hleads ▸ ⟨0, .inl rfl⟩)
    rwa [withoutInput_twoWays, hleads] at hmet
  refine Set.Subset.antisymm (fun states hmet => ?_) ?_
  · have hinvariant : 0 ∈ states ∧ (states = {0} ∨ states = {0, 1}) := by
      induction hmet with
      | start =>
        rw [withoutInput_twoWays]
        exact ⟨rfl, .inl rfl⟩
      | next _ hsome ih =>
        obtain ⟨t, ht⟩ := hsome
        rw [withoutInput_twoWays]
        rcases (mem_withChar_twoWays ih.1).mp ht with ⟨rfl, -⟩ | ⟨rfl, -⟩
        · rw [hboth ih.1]
          exact ⟨.inl rfl, .inr rfl⟩
        · rw [hone ih.1]
          exact ⟨rfl, .inl rfl⟩
    exact hinvariant.2
  · rintro states (rfl | rfl)
    · exact hstart
    · exact hnext

theorem toDfaWithLimit_exact_twoWays :
    {states | twoWays.Met 0 states}.ncard = 2 ∧
    ∃ edges, twoWays.states.mapM stateEdges = .ok edges ∧
      (∃ e nextId, (twoWays.toDfaWithLimit 1).run 7 = (.error e, nextId) ∧ e.kind = .automaton ∧
        RoundsEnd twoWays edges 1 (begun twoWays 0 7) (7 + 1) (.error e) nextId) ∧
      ∃ dfa family nextId, (twoWays.toDfaWithLimit 2).run 7 = (.ok dfa, nextId) ∧
        dfa.kind = .dfa ∧ RealizesFamily twoWays 0 dfa family ∧
          RoundsEnd twoWays edges 2 (begun twoWays 0 7) (7 + 1) (.ok dfa) nextId := by
  have hplain : ∀ s ∈ twoWays.states, s.action = none ∧ s.marks.hasAssertion = false := by
    simp [twoWays, State.new]
    decide
  have hsingle : ∀ s ∈ twoWays.states, ∀ t ∈ s.transitions,
      t.label.all (·.matcher.isSingle) = true := by
    simp [twoWays, State.new]
    decide
  have hcount : {states | twoWays.Met 0 states}.ncard = 2 := by
    rw [met_twoWays]
    refine Set.ncard_pair fun hsame => ?_
    have hsecond : (1 : Nat) ∈ ({0} : Set Nat) := hsame ▸ Set.mem_insert_of_mem 0 rfl
    cases hsecond
  obtain ⟨edges, small, nextId, hedges, hsmall, hrun, -, hover, -⟩ :=
    toDfaWithLimit_exact rfl (by decide) hplain hsingle (Nat.le_refl 1) 7
  obtain ⟨edges', large, nextId', hedges', hlarge, hrun', -, -, hwithin⟩ :=
    toDfaWithLimit_exact rfl (by decide) hplain hsingle (Nat.le_succ 1) 7
  obtain rfl : edges = edges' := Except.ok.inj (hedges.symm.trans hedges')
  obtain ⟨e, rfl, hkind⟩ := hover (by omega)
  obtain ⟨dfa, family, rfl, hdfa, hrealizes⟩ := hwithin (by omega)
  exact ⟨hcount, edges, hedges, ⟨e, nextId, hrun, hkind, hsmall⟩,
    dfa, family, nextId', hrun', hdfa, hrealizes, hlarge⟩

end RegexEngine.Automaton
