import Mathlib.Data.List.Nodup
import RegexEngine.Proofs.Automaton.Integrity
import RegexEngine.Proofs.Automaton.Runs
import RegexEngine.Proofs.Automaton.Subsets
import RegexEngine.Proofs.Steps

/-!
Making an automaton deterministic keeps its language. A state of the result and the set that it
stands for accept the same rests of an input: the transition that takes a character, if there is
one, leads to the set that the members lead to with it. No two transitions of a state take the same
character, since the moves that they carry have different targets.
-/

namespace RegexEngine.Automaton

open CharRanges
open Subsets (Stands Carries Worked begun leaving moves planOf)

variable {input : Array Char}

/-! Following sets of states. -/

theorem acceptsFrom_nil_states (a : Automaton) (position : Nat) (rest : List Char) :
    a.acceptsFrom input [] position rest = false := by
  cases rest <;> rfl

theorem enteredAt_nil (a : Automaton) (position : Nat) : a.enteredAt input position [] = [] := by
  simp [enteredAt, Graph.depthFirst]

theorem mem_targetsOn_iff_exists (a : Automaton) (states : List Nat) (c : Char) (t : Nat) :
    t ∈ a.targetsOn c states ↔ ∃ s ∈ states, ∃ state, a.states[s]? = some state ∧
      ∃ step ∈ state.transitions, step.matchesChar c = true ∧ step.target = t := by
  simp only [targetsOn, List.mem_flatMap]
  refine exists_congr fun s => and_congr_right fun _ => ?_
  cases a.states[s]? with
  | none => simp
  | some state => simp [and_assoc]

/-- Without targets there is nothing to follow. -/
theorem acceptsFrom_cons (a : Automaton) (states : List Nat) (position : Nat) (c : Char)
    (rest : List Char) :
    a.acceptsFrom input states position (c :: rest) =
      a.acceptsFrom input (a.enteredAt input (position + 1) (a.targetsOn c states)) (position + 1)
        rest := by
  rw [acceptsFrom]
  split
  · rename_i hnone
    rw [hnone, enteredAt_nil, acceptsFrom_nil_states]
  · rfl

/-- Two lists of states with the same members accept the same. -/
theorem acceptsFrom_congr (a : Automaton) (rest : List Char) :
    ∀ {states others : List Nat} (position : Nat), (∀ s, s ∈ states ↔ s ∈ others) →
      a.acceptsFrom input states position rest = a.acceptsFrom input others position rest := by
  induction rest with
  | nil =>
    intro states others position h
    rw [Bool.eq_iff_iff, acceptsFrom, acceptsFrom, List.any_eq_true, List.any_eq_true]
    simp only [h]
  | cons c rest ih =>
    intro states others position h
    rw [acceptsFrom_cons, acceptsFrom_cons]
    refine ih (position + 1) fun s => ?_
    have htargets (t : Nat) : t ∈ a.targetsOn c states ↔ t ∈ a.targetsOn c others := by
      rw [mem_targetsOn, mem_targetsOn]
      simp only [h]
    rw [mem_enteredAt, mem_enteredAt]
    simp only [Enters, htargets]

/-! Automata in which every state can be passed everywhere. -/

/-- No state has an assertion or an action. -/
def AllOpen (a : Automaton) : Prop :=
  ∀ (s : Nat) (state : State), a.states[s]? = some state →
    state.action = none ∧ state.marks.hasAssertion = false

variable {a : Automaton}

theorem AllOpen.isOpenAt_iff (h : a.AllOpen) (position s : Nat) :
    a.isOpenAt input position s = true ↔ s < a.stateCount := by
  unfold isOpenAt
  cases hstate : a.states[s]? with
  | none =>
    simp only [Bool.false_eq_true, false_iff]
    exact Nat.not_lt.mpr (Array.getElem?_eq_none_iff.mp hstate)
  | some state =>
    obtain ⟨haction, hmarks⟩ := h s state hstate
    simp only [haction, Marks.holdAt, hmarks, Option.isNone_none, Bool.not_false, Bool.true_or,
      Bool.and_self, true_iff]
    exact (Array.getElem?_eq_some_iff.mp hstate).1

/-- Where every state can be passed, what can be entered is what can be reached without input. -/
theorem AllOpen.mem_enteredAt_iff (h : a.AllOpen) (position : Nat) (start : List Nat) (t : Nat) :
    t ∈ a.enteredAt input position start ↔ t ∈ a.closure start := by
  have hnext : (fun s => if a.isOpenAt input position s = true then a.epsilonTargets s else []) =
      a.epsilonTargets := by
    funext s
    by_cases hlt : s < a.stateCount
    · rw [if_pos ((h.isOpenAt_iff position s).mpr hlt)]
    · rw [if_neg fun hopen => hlt ((h.isOpenAt_iff position s).mp hopen), epsilonTargets,
        Array.getElem?_eq_none (Nat.le_of_not_lt hlt)]
  unfold enteredAt closure
  dsimp only
  rw [hnext, List.mem_filter, List.mem_mergeSort]
  refine and_iff_left_of_imp fun hvisited => (h.isOpenAt_iff position t).mpr ?_
  obtain ⟨s, _, hlt, hpath⟩ := (Graph.mem_depthFirst_unseen _ _ _).mp hvisited
  cases hpath with
  | refl => exact hlt
  | tail _ hedge => exact hedge.2

/-- Where no transition goes without input, only a state itself can be entered from it. -/
theorem AllOpen.mem_enteredAt_singleton (h : a.AllOpen)
    (hepsilon : ∀ s, a.epsilonTargets s = []) {s : Nat} (hs : s < a.stateCount) (position t : Nat) :
    t ∈ a.enteredAt input position [s] ↔ t = s := by
  rw [mem_enteredAt, Enters]
  constructor
  · rintro ⟨_, u, hu, hpath⟩
    obtain rfl := List.mem_singleton.mp hu
    cases hpath with
    | refl => rfl
    | tail _ hstep =>
      rw [hepsilon] at hstep
      cases hstep.2
  · rintro rfl
    exact ⟨(h.isOpenAt_iff position t).mpr hs, t, List.mem_singleton_self t, .refl⟩

/-! What can be made deterministic. -/

theorem edge_ok {t : Transition} {e : Edge} (h : (match t.ranges? with
    | some ranges => .ok ⟨ranges, t.target⟩
    | none => .error AutomatonFault.multiCharacter.error : Except Error Edge) = .ok e) :
    t.ranges? = some e.ranges ∧ t.target = e.target := by
  split at h
  · rename_i r hr
    cases h
    exact ⟨hr, rfl⟩
  · cases h

/-- The edges of a state are its transitions that take input, each with the characters it takes. -/
theorem stateEdges_ok {s : State} {edges : List Edge} (h : stateEdges s = .ok edges) :
    (s.action = none ∧ s.marks.hasAssertion = false) ∧
      (∀ e ∈ edges, ∃ t ∈ s.transitions, t.ranges? = some e.ranges ∧ t.target = e.target) ∧
        ∀ t ∈ s.transitions, t.isEpsilon = false →
          ∃ e ∈ edges, t.ranges? = some e.ranges ∧ t.target = e.target := by
  unfold stateEdges at h
  split at h
  · cases h
  · rename_i hplain
    have hall := mapM_eq_ok.mp h
    refine ⟨by simpa using hplain, fun e he => ?_, fun t ht hepsilon => ?_⟩
    · obtain ⟨k, hk, rfl⟩ := List.mem_iff_getElem.mp he
      have hk' := hall.length_eq ▸ hk
      refine ⟨_, (List.mem_filter.mp (List.getElem_mem hk')).1, edge_ok (hall.get hk' hk)⟩
    · have hmem : t ∈ s.transitions.filter fun t => !t.isEpsilon := by
        simp [List.mem_filter, ht, hepsilon]
      obtain ⟨k, hk, rfl⟩ := List.mem_iff_getElem.mp hmem
      have hk' := hall.length_eq ▸ hk
      exact ⟨_, List.getElem_mem hk', edge_ok (hall.get hk hk')⟩

/-- The edges of an automaton, state by state. -/
structure Edges (nfa : Automaton) (edges : Array (List Edge)) : Prop where
  allOpen : nfa.AllOpen
  sound : ∀ (members : List Nat), ∀ e ∈ leaving edges members, ∃ u ∈ members, ∃ s,
    nfa.states[u]? = some s ∧ ∃ t ∈ s.transitions, t.ranges? = some e.ranges ∧ t.target = e.target
  complete : ∀ (members : List Nat), ∀ u ∈ members, ∀ s, nfa.states[u]? = some s →
    ∀ t ∈ s.transitions, t.isEpsilon = false →
      ∃ e ∈ leaving edges members, t.ranges? = some e.ranges ∧ t.target = e.target

theorem edges_of_mapM {nfa : Automaton} {edges : Array (List Edge)}
    (h : nfa.states.mapM stateEdges = .ok edges) : Edges nfa edges := by
  have hlist : nfa.states.toList.mapM stateEdges = .ok edges.toList := by
    rw [Array.mapM_eq_mapM_toList] at h
    cases hstates : nfa.states.toList.mapM stateEdges with
    | error e =>
      rw [hstates] at h
      cases h
    | ok results =>
      rw [hstates] at h
      cases h
      rfl
  have hall := mapM_eq_ok.mp hlist
  have hstate {u : Nat} {s : State} (hs : nfa.states[u]? = some s) :
      ∃ es, edges[u]? = some es ∧ stateEdges s = .ok es := by
    obtain ⟨hu, rfl⟩ := Array.getElem?_eq_some_iff.mp hs
    have hlength := hall.length_eq
    simp only [Array.length_toList] at hlength
    refine ⟨_, Array.getElem?_eq_getElem (hlength ▸ hu), ?_⟩
    exact hall.get (by simpa using hu) (by simpa using hlength ▸ hu)
  refine ⟨fun u s hs => ?_, fun members e he => ?_, fun members u hu s hs t ht hepsilon => ?_⟩
  · obtain ⟨es, _, hes⟩ := hstate hs
    exact (stateEdges_ok hes).1
  · obtain ⟨u, hu, he⟩ := List.mem_flatMap.mp he
    cases hedges : edges[u]? with
    | none => simp [hedges] at he
    | some es =>
      rw [hedges, Option.getD_some] at he
      have hlt : u < nfa.states.size := by
        have hbound := (Array.getElem?_eq_some_iff.mp hedges).1
        have hlength := hall.length_eq
        simp only [Array.length_toList] at hlength
        omega
      have hs : nfa.states[u]? = some nfa.states[u] := Array.getElem?_eq_getElem hlt
      obtain ⟨es', hedges', hes⟩ := hstate hs
      obtain rfl := Option.some.inj (hedges.symm.trans hedges')
      exact ⟨u, hu, _, hs, (stateEdges_ok hes).2.1 e he⟩
  · obtain ⟨es, hedges, hes⟩ := hstate hs
    obtain ⟨e, he, hranges⟩ := (stateEdges_ok hes).2.2 t ht hepsilon
    refine ⟨e, List.mem_flatMap.mpr ⟨u, hu, ?_⟩, hranges⟩
    rw [hedges, Option.getD_some]
    exact he

namespace Edges

variable {nfa : Automaton} {edges : Array (List Edge)}

theorem normal (h : Edges nfa edges) : Subsets.NormalEdges edges := by
  intro members e he
  obtain ⟨u, _, s, _, t, _, hranges, _⟩ := h.sound members e he
  exact (Transition.ranges?_spec hranges).1

/-- The targets of the edges that take a character are those of the transitions that do. -/
theorem mem_targetsAt_iff (h : Edges nfa edges) (members : List Nat) (c : Char) (t : Nat) :
    t ∈ targetsAt (leaving edges members) c.toNat ↔ t ∈ nfa.targetsOn c members := by
  rw [mem_targetsAt, mem_targetsOn_iff_exists]
  constructor
  · rintro ⟨e, he, hcovers, rfl⟩
    obtain ⟨u, hu, s, hs, step, hstep, hranges, htarget⟩ := h.sound members e he
    exact ⟨u, hu, s, hs, step, hstep, ((Transition.ranges?_spec hranges).2 c).mp hcovers, htarget⟩
  · rintro ⟨u, hu, s, hs, step, hstep, hmatches, rfl⟩
    have hepsilon : step.isEpsilon = false := by
      cases hlabel : step.label with
      | none => simp [Transition.matchesChar, hlabel] at hmatches
      | some label => simp [Transition.isEpsilon, hlabel]
    obtain ⟨e, he, hranges, htarget⟩ := h.complete members u hu s hs step hstep hepsilon
    exact ⟨e, he, ((Transition.ranges?_spec hranges).2 c).mpr hmatches, htarget.symm⟩

end Edges

/-! The deterministic automaton. -/

/-- An automaton with a state for each of some sets of states of another, the first of them what the
initial state enters. Its transitions carry the moves of the sets. -/
structure Determinized (nfa : Automaton) (edges : Array (List Edge)) (base : UInt32)
    (initial : Nat) (dfa : Automaton) (sets : List (List Nat)) : Prop where
  kind_eq : dfa.kind = .dfa
  initial_eq : dfa.initial = some 0
  current_eq : dfa.current = some 0
  size_eq : dfa.stateCount = sets.length
  start : sets[0]? = some (nfa.closure [initial])
  unique : ∀ (place other : Nat) (members : List Nat),
    sets[place]? = some members → sets[other]? = some members → place = other
  state : ∀ (place : Nat) (members : List Nat), sets[place]? = some members →
    ∃ s, dfa.states[place]? = some s ∧ Stands nfa base place members s ∧
      List.Forall₂ (Carries nfa sets place) (moves (leaving edges members)) s.transitions

/-- What is left when no set waits stands for the sets that were met. -/
theorem determinized_of_worked {nfa dfa : Automaton} {edges : Array (List Edge)} {limit initial : Nat}
    {base nextId : UInt32} {more : List (List Nat)}
    (h : Worked nfa edges base limit (begun nfa initial base).dfa ([nfa.closure [initial]] ++ more)
      (.ok dfa) nextId) :
    Determinized nfa edges base initial dfa ([nfa.closure [initial]] ++ more) := by
  obtain ⟨b, rfl, hfinal, hdfa⟩ := h
  refine ⟨?_, ?_, ?_, hfinal.built.size_eq, rfl, ?_, ?_⟩
  · rw [hdfa]
    rfl
  · rw [hdfa]
    rfl
  · rw [hdfa]
    rfl
  · intro place other members hplace hother
    rw [← hfinal.built.places_iff] at hplace hother
    exact Option.some.inj (hplace.symm.trans hother)
  · intro place members hplace
    obtain ⟨s, hs, hstands, hcarries⟩ := hfinal.built.state place members hplace
    refine ⟨s, hs, hstands, ?_⟩
    rw [planOf, if_pos (List.getElem?_eq_some_iff.mp hplace).1, hplace, Option.getD_some]
      at hcarries
    exact hcarries

/-- What the construction makes stands for sets of states, and has no more states than are allowed. -/
theorem determinized_within_limit {nfa dfa : Automaton} {limit : Nat} {base nextId : UInt32}
    (h : (nfa.toDfaWithLimit limit).run base = (.ok dfa, nextId)) :
    ∃ (initial : Nat) (edges : Array (List Edge)) (sets : List (List Nat)),
      nfa.initial = some initial ∧ Edges nfa edges ∧ sets.length ≤ max limit 1 ∧
        Determinized nfa edges base initial dfa sets := by
  have hstarts : ∃ initial, nfa.initial = some initial := by
    unfold toDfaWithLimit at h
    split at h
    · cases h
    · exact ⟨_, ‹_›⟩
  obtain ⟨initial, hinitial⟩ := hstarts
  have hleads : ∃ edges, nfa.states.mapM stateEdges = .ok edges := by
    unfold toDfaWithLimit at h
    simp only [hinitial] at h
    split at h
    · cases h
    · exact ⟨_, ‹_›⟩
  obtain ⟨edges, hedges⟩ := hleads
  have hof := edges_of_mapM hedges
  obtain ⟨result, nextId', more, hrun, _, hworked⟩ :=
    (Subsets.working_begun nfa edges base limit initial).run hof.normal (limit + 2) rfl
  have heq := h.symm.trans ((run_toDfaWithLimit hinitial hedges limit base).trans hrun)
  cases heq
  have hmade := determinized_of_worked hworked
  obtain ⟨b, _, hfinal, _⟩ := hworked
  exact ⟨initial, edges, _, hinitial, hof, hfinal.length_le, hmade⟩

theorem determinized_of_run {nfa dfa : Automaton} {limit : Nat} {base nextId : UInt32}
    (h : (nfa.toDfaWithLimit limit).run base = (.ok dfa, nextId)) :
    ∃ (initial : Nat) (edges : Array (List Edge)) (sets : List (List Nat)),
      nfa.initial = some initial ∧ Edges nfa edges ∧
        Determinized nfa edges base initial dfa sets := by
  obtain ⟨initial, edges, sets, hinitial, hof, _, hmade⟩ := determinized_within_limit h
  exact ⟨initial, edges, sets, hinitial, hof, hmade⟩

/-- What can be followed one character after the other can be made deterministic, but for the number
of sets. -/
theorem toDfaWithLimit_error {nfa : Automaton} {limit : Nat} {base : UInt32} {e : Error} {initial : Nat}
    {edges : Array (List Edge)} (hinitial : nfa.initial = some initial)
    (hedges : nfa.states.mapM stateEdges = .ok edges)
    (h : ((nfa.toDfaWithLimit limit).run base).1 = .error e) :
    e = (AutomatonFault.tooManySubsets limit).error := by
  obtain ⟨result, nextId', more, hrun, _, hworked⟩ :=
    (Subsets.working_begun nfa edges base limit initial).run (edges_of_mapM hedges).normal
      (limit + 2) rfl
  rw [run_toDfaWithLimit hinitial hedges, hrun] at h
  cases h
  exact hworked.1.error_eq

namespace Determinized

variable {nfa dfa : Automaton} {edges : Array (List Edge)} {base : UInt32} {initial : Nat}
  {sets : List (List Nat)}

/-- Every state of the automaton stands for a set. -/
theorem exists_set (h : Determinized nfa edges base initial dfa sets) {place : Nat} {s : State}
    (hs : dfa.states[place]? = some s) : ∃ members, sets[place]? = some members ∧
      Stands nfa base place members s ∧
        List.Forall₂ (Carries nfa sets place) (moves (leaving edges members)) s.transitions := by
  have hlt : place < sets.length := by
    have hbound := (Array.getElem?_eq_some_iff.mp hs).1
    have hsize := h.size_eq
    rw [stateCount] at hsize
    omega
  refine ⟨sets[place], List.getElem?_eq_getElem hlt, ?_⟩
  obtain ⟨s', hs', hstate⟩ := h.state place _ (List.getElem?_eq_getElem hlt)
  obtain rfl := Option.some.inj (hs.symm.trans hs')
  exact hstate

theorem exists_move_of_mem {members : List Nat} {place : Nat} {s : State}
    (hcarries : List.Forall₂ (Carries nfa sets place) (moves (leaving edges members))
      s.transitions) {t : Transition} (ht : t ∈ s.transitions) :
    ∃ move ∈ moves (leaving edges members), Carries nfa sets place move t := by
  obtain ⟨k, hk, rfl⟩ := List.mem_iff_getElem.mp ht
  have hk' := hcarries.length_eq ▸ hk
  exact ⟨_, List.getElem_mem hk', hcarries.get hk' hk⟩

/-- A transition that takes a character leads to the set that the members lead to with it. -/
theorem target_of_matches {members : List Nat} {place : Nat} {s : State}
    (hcarries : List.Forall₂ (Carries nfa sets place) (moves (leaving edges members))
      s.transitions) {t : Transition} (ht : t ∈ s.transitions) {c : Char}
    (hc : t.matchesChar c = true) :
    sets[t.target]? = some (nfa.closure (targetsAt (leaving edges members) c.toNat)) := by
  obtain ⟨move, hmove, hcarry⟩ := exists_move_of_mem hcarries ht
  rw [Subsets.targetsAt_of_covers hmove ((hcarry.takes c).mp hc)]
  exact hcarry.target

/-- Where the members lead somewhere with a character, a transition takes it. -/
theorem exists_matches (hof : Edges nfa edges) {members : List Nat} {place : Nat} {s : State}
    (hcarries : List.Forall₂ (Carries nfa sets place) (moves (leaving edges members))
      s.transitions) {c : Char} {u : Nat}
    (hu : u ∈ targetsAt (leaving edges members) c.toNat) :
    ∃ t ∈ s.transitions, t.matchesChar c = true := by
  obtain ⟨e, he, hcovers, _⟩ := mem_targetsAt.mp hu
  obtain ⟨move, hmove, htakes⟩ := Subsets.exists_move (hof.normal members) he hcovers
  obtain ⟨k, hk, rfl⟩ := List.mem_iff_getElem.mp hmove
  have hk' := hcarries.length_eq ▸ hk
  exact ⟨_, List.getElem_mem hk', ((hcarries.get hk hk').takes c).mpr htakes⟩

theorem allOpen (h : Determinized nfa edges base initial dfa sets) : dfa.AllOpen := by
  intro place s hs
  obtain ⟨_, _, hstands, _⟩ := h.exists_set hs
  refine ⟨hstands.action_eq, ?_⟩
  rw [hstands.marks_eq]
  rfl

theorem isEpsilon_eq_false {sets : List (List Nat)} {place : Nat} {move : Move} {t : Transition}
    (h : Carries nfa sets place move t) : t.isEpsilon = false := by
  obtain ⟨r, hr⟩ := h.ranges
  cases hlabel : t.label with
  | none => simp [Transition.ranges?, hlabel] at hr
  | some label => simp [Transition.isEpsilon, hlabel]

theorem epsilonTargets_eq_nil (h : Determinized nfa edges base initial dfa sets) (place : Nat) :
    dfa.epsilonTargets place = [] := by
  unfold epsilonTargets
  split
  · rename_i s hs
    obtain ⟨_, _, _, hcarries⟩ := h.exists_set hs
    rw [State.epsilonTargets, List.map_eq_nil_iff, List.filter_eq_nil_iff]
    intro t ht
    obtain ⟨_, _, hcarry⟩ := exists_move_of_mem hcarries ht
    rw [isEpsilon_eq_false hcarry]
    exact Bool.false_ne_true
  · rfl

theorem mem_enteredAt_iff (h : Determinized nfa edges base initial dfa sets) {place : Nat}
    {members : List Nat} (hplace : sets[place]? = some members) (position t : Nat) :
    t ∈ dfa.enteredAt input position [place] ↔ t = place := by
  refine h.allOpen.mem_enteredAt_singleton h.epsilonTargets_eq_nil ?_ position t
  rw [h.size_eq]
  exact (List.getElem?_eq_some_iff.mp hplace).1

theorem mem_targetsOn_enteredAt_iff (h : Determinized nfa edges base initial dfa sets)
    {place : Nat} {members : List Nat} (hplace : sets[place]? = some members) {s : State}
    (hs : dfa.states[place]? = some s) (position : Nat) (c : Char) (t : Nat) :
    t ∈ dfa.targetsOn c (dfa.enteredAt input position [place]) ↔
      ∃ step ∈ s.transitions, step.matchesChar c = true ∧ step.target = t := by
  rw [mem_targetsOn]
  simp only [h.mem_enteredAt_iff hplace, exists_eq_left]
  simp [targetsOn, hs, and_assoc]

/-- A character that leads nowhere from a set leads nowhere from its state. -/
theorem targetsOn_eq_nil (h : Determinized nfa edges base initial dfa sets) {place : Nat}
    {members : List Nat} (hplace : sets[place]? = some members) (position : Nat) {c : Char}
    (hnone : targetsAt (leaving edges members) c.toNat = []) :
    dfa.targetsOn c (dfa.enteredAt input position [place]) = [] := by
  obtain ⟨s, hs, _, hcarries⟩ := h.state place members hplace
  rw [List.eq_nil_iff_forall_not_mem]
  intro t ht
  obtain ⟨step, hstep, hmatches, _⟩ := (h.mem_targetsOn_enteredAt_iff hplace hs position c t).mp ht
  obtain ⟨move, hmove, hcarry⟩ := exists_move_of_mem hcarries hstep
  have htaken := Subsets.targetsAt_of_covers hmove ((hcarry.takes c).mp hmatches)
  exact ((Subsets.moves_grouped _).sound move hmove).2.1 (htaken.symm.trans hnone)

/-- A character that leads on from a set leads from its state to that of the next set. -/
theorem exists_next (h : Determinized nfa edges base initial dfa sets) (hof : Edges nfa edges)
    {place : Nat} {members : List Nat} (hplace : sets[place]? = some members) (position : Nat)
    {c : Char} (hsome : targetsAt (leaving edges members) c.toNat ≠ []) :
    ∃ next, sets[next]? = some (nfa.closure (targetsAt (leaving edges members) c.toNat)) ∧
      ∀ t, t ∈ dfa.targetsOn c (dfa.enteredAt input position [place]) ↔ t ∈ [next] := by
  obtain ⟨s, hs, _, hcarries⟩ := h.state place members hplace
  obtain ⟨u, hu⟩ := List.exists_mem_of_ne_nil _ hsome
  obtain ⟨step, hstep, hmatches⟩ := exists_matches hof hcarries hu
  have hnext := target_of_matches hcarries hstep hmatches
  refine ⟨step.target, hnext, fun t => ?_⟩
  rw [h.mem_targetsOn_enteredAt_iff hplace hs, List.mem_singleton]
  constructor
  · rintro ⟨other, hother, hmatches', rfl⟩
    exact h.unique _ _ _ (target_of_matches hcarries hother hmatches') hnext
  · rintro rfl
    exact ⟨step, hstep, hmatches, rfl⟩

/-- A state accepts the same rests of an input as the set that it stands for. -/
theorem acceptsFrom_eq (h : Determinized nfa edges base initial dfa sets) (hof : Edges nfa edges)
    (rest : List Char) :
    ∀ (position place : Nat) (members : List Nat), sets[place]? = some members →
      dfa.acceptsFrom input (dfa.enteredAt input position [place]) position rest =
        nfa.acceptsFrom input members position rest := by
  induction rest with
  | nil =>
    intro position place members hplace
    obtain ⟨s, hs, hstands, _⟩ := h.state place members hplace
    have hself : dfa.acceptsFrom input (dfa.enteredAt input position [place]) position [] =
        dfa.acceptsFrom input [place] position [] := by
      refine dfa.acceptsFrom_congr [] position fun t => ?_
      rw [h.mem_enteredAt_iff hplace, List.mem_singleton]
    rw [hself, acceptsFrom, acceptsFrom]
    simp [hs, hstands.accepting_eq]
  | cons c rest ih =>
    intro position place members hplace
    have hmembers (t : Nat) :
        t ∈ nfa.enteredAt input (position + 1) (nfa.targetsOn c members) ↔
          t ∈ nfa.closure (targetsAt (leaving edges members) c.toNat) := by
      rw [← @AllOpen.mem_enteredAt_iff input nfa hof.allOpen (position + 1), mem_enteredAt,
        mem_enteredAt]
      simp only [Enters, hof.mem_targetsAt_iff]
    rw [acceptsFrom_cons, acceptsFrom_cons, nfa.acceptsFrom_congr rest (position + 1) hmembers]
    by_cases hnone : targetsAt (leaving edges members) c.toNat = []
    · have hclosure : nfa.closure [] = [] := by
        simp [closure, Graph.depthFirst]
      rw [h.targetsOn_eq_nil hplace position hnone, hnone, hclosure, enteredAt_nil,
        acceptsFrom_nil_states, acceptsFrom_nil_states]
    · obtain ⟨next, hnext, htargets⟩ :
          ∃ next, sets[next]? = some (nfa.closure (targetsAt (leaving edges members) c.toNat)) ∧
            ∀ t, t ∈ dfa.targetsOn c (dfa.enteredAt input position [place]) ↔ t ∈ [next] :=
        h.exists_next hof hplace position hnone
      have hsame (t : Nat) :
          t ∈ dfa.enteredAt input (position + 1)
              (dfa.targetsOn c (dfa.enteredAt input position [place])) ↔
            t ∈ dfa.enteredAt input (position + 1) [next] := by
        rw [mem_enteredAt, mem_enteredAt]
        simp only [Enters, htargets]
      rw [dfa.acceptsFrom_congr rest (position + 1) hsame]
      exact ih (position + 1) next _ hnext

/-- The deterministic automaton accepts what the other accepts. -/
theorem accepts_eq (h : Determinized nfa edges base initial dfa sets) (hof : Edges nfa edges)
    (hinitial : nfa.initial = some initial) (input : Array Char) :
    dfa.accepts input = nfa.accepts input := by
  unfold accepts
  rw [h.initial_eq, hinitial]
  dsimp only
  rw [h.acceptsFrom_eq hof input.toList 0 0 _ h.start]
  exact nfa.acceptsFrom_congr _ 0 fun t => (hof.allOpen.mem_enteredAt_iff 0 [initial] t).symm

/-! No character leaves a state in two ways. -/

theorem pairwise_of_forall₂ {α β : Type} {R : α → β → Prop} {P : α → α → Prop} {Q : β → β → Prop}
    (hQ : ∀ a b x y, P a b → R a x → R b y → Q x y) {items : List α} {others : List β}
    (h : List.Forall₂ R items others) (hitems : items.Pairwise P) : others.Pairwise Q := by
  induction h with
  | nil => exact .nil
  | @cons a x items others hfirst hrest ih =>
    obtain ⟨hafter, hitems⟩ := List.pairwise_cons.mp hitems
    refine List.pairwise_cons.mpr ⟨fun y hy => ?_, ih hitems⟩
    obtain ⟨k, hk, rfl⟩ := List.mem_iff_getElem.mp hy
    have hk' := hrest.length_eq ▸ hk
    exact hQ a _ x _ (hafter _ (List.getElem_mem hk')) hfirst (hrest.get hk' hk)

/-- Two transitions of a state never take the same character. -/
theorem pairwise_transitions {members : List Nat} {place : Nat} {s : State}
    (hcarries : List.Forall₂ (Carries nfa sets place) (moves (leaving edges members))
      s.transitions) :
    s.transitions.Pairwise fun t u => ∀ c, ¬ (t.matchesChar c = true ∧ u.matchesChar c = true) := by
  have hdistinct := List.pairwise_map.mp (Subsets.moves_grouped (leaving edges members)).distinct
  have hmem : List.Forall₂
      (fun move t => move ∈ moves (leaving edges members) ∧ Carries nfa sets place move t)
        (moves (leaving edges members)) s.transitions :=
    (List.forall₂_and_left _ _).mpr ⟨fun _ h => h, hcarries⟩
  refine pairwise_of_forall₂ ?_ hmem hdistinct
  rintro move other t u hne ⟨hmove, hcarry⟩ ⟨hother, hcarry'⟩ c ⟨ht, hu⟩
  have htargets := Subsets.targetsAt_of_covers hmove ((hcarry.takes c).mp ht)
  exact hne (htargets.symm.trans (Subsets.targetsAt_of_covers hother ((hcarry'.takes c).mp hu)))

/-- Sets in normal form that have no character in common are found to be disjoint. -/
theorem areDisjoint_of_pairwise {transitions : List Transition} {seen : CharRanges}
    (hseen : Normal seen.pairs) (hranges : ∀ t ∈ transitions, ∃ r, t.ranges? = some r)
    (hfresh : ∀ t ∈ transitions, ∀ c, t.matchesChar c = true → ¬ Covers seen.pairs c.toNat)
    (hpairs : transitions.Pairwise
      fun t u => ∀ c, ¬ (t.matchesChar c = true ∧ u.matchesChar c = true)) :
    areDisjoint seen (transitions.map Transition.ranges?) = true := by
  induction transitions generalizing seen with
  | nil => rfl
  | cons t rest ih =>
    obtain ⟨r, hr⟩ := hranges t List.mem_cons_self
    obtain ⟨hnormal, hcovers⟩ := Transition.ranges?_spec hr
    obtain ⟨hafter, hrest⟩ := List.pairwise_cons.mp hpairs
    rw [List.map_cons, hr, areDisjoint, Bool.and_eq_true, Bool.not_eq_true', Bool.eq_false_iff]
    refine ⟨fun hany => ?_, ?_⟩
    · obtain ⟨p, hp, hany⟩ := List.any_eq_true.mp hany
      obtain ⟨q, hq, hoverlap⟩ := List.any_eq_true.mp hany
      simp only [Bool.and_eq_true, decide_eq_true_eq] at hoverlap
      have hproper := hnormal.proper p hp
      have hproper' := hseen.proper q hq
      have htaken : Covers r.pairs (max p.1 q.1) := ⟨p, hp, by omega, by omega⟩
      have hheld : Covers seen.pairs (max p.1 q.1) := ⟨q, hq, by omega, by omega⟩
      obtain ⟨hcode, hbound⟩ := hnormal.isCode htaken
      obtain ⟨c, hc⟩ := charOfCode?_eq_some hcode hbound
      rw [← toNat_of_charOfCode? hc] at htaken hheld
      exact hfresh t List.mem_cons_self c ((hcovers c).mp htaken) hheld
    · refine ih (normal_union hseen hnormal)
        (fun u hu => hranges u (List.mem_cons_of_mem _ hu)) (fun u hu c hc => ?_) hrest
      rw [covers_union hseen hnormal, not_or]
      refine ⟨hfresh u (List.mem_cons_of_mem _ hu) c hc, fun htaken => ?_⟩
      exact hafter u hu c ⟨(hcovers c).mp htaken, hc⟩

theorem isDeterministic_eq_true (h : Determinized nfa edges base initial dfa sets) :
    dfa.isDeterministic = true := by
  unfold isDeterministic
  rw [Array.all_eq_true_iff_forall_mem]
  intro s hs
  obtain ⟨place, hplace⟩ := Array.mem_iff_getElem?.mp hs
  obtain ⟨members, _, hstands, hcarries⟩ := h.exists_set hplace
  have hdisjoint : areDisjoint .empty (s.transitions.map Transition.ranges?) = true := by
    refine areDisjoint_of_pairwise ⟨.nil, by simp [CharRanges.empty], by simp [CharRanges.empty],
      by simp [CharRanges.empty]⟩ (fun t ht => ?_) (fun t _ c _ => covers_nil _)
      (pairwise_transitions hcarries)
    obtain ⟨_, _, hcarry⟩ := exists_move_of_mem hcarries ht
    exact hcarry.ranges
  rw [hstands.action_eq, hstands.marks_eq, hdisjoint]
  rfl

/-! Integrity. -/

/-- Numbers that are counted on from a word differ as long as they fit into words. -/
theorem nodup_words_iff (base : UInt32) (count : Nat) :
    ((List.range count).map fun k => base + UInt32.ofNat k).Nodup ↔ count ≤ UInt32.size := by
  have hsize : UInt32.size = 4294967296 := rfl
  constructor
  · intro h
    by_contra hlarge
    rw [List.nodup_map_iff_inj_on List.nodup_range] at h
    have heq := h 0 (List.mem_range.mpr (by omega)) UInt32.size (List.mem_range.mpr (by omega)) rfl
    omega
  · intro h
    refine List.Nodup.map_on ?_ List.nodup_range
    intro j hj k hk heq
    rw [List.mem_range] at hj hk
    have hvalues := congrArg UInt32.toNat ((UInt32.add_right_inj base).mp heq)
    rw [UInt32.toNat_ofNat', UInt32.toNat_ofNat'] at hvalues
    omega

/-- Identifiers are counted on from the first one. -/
theorem ids_eq (h : Determinized nfa edges base initial dfa sets) :
    dfa.states.toList.map (·.id) =
      (List.range dfa.stateCount).map fun k => base + UInt32.ofNat k := by
  refine List.ext_getElem (by simp [stateCount]) fun k hk _ => ?_
  have hlt : k < dfa.states.size := by simpa using hk
  obtain ⟨_, _, hstands, _⟩ := h.exists_set (Array.getElem?_eq_getElem hlt)
  simpa using hstands.id_eq

theorem fits (h : Determinized nfa edges base initial dfa sets) {place : Nat} {s : State}
    (hs : dfa.states[place]? = some s) : s.FitsAt dfa.stateCount place := by
  obtain ⟨members, _, hstands, hcarries⟩ := h.exists_set hs
  refine ⟨fun t ht => ?_, fun t ht => ?_, fun body hbody => ?_⟩
  · obtain ⟨_, _, hcarry⟩ := exists_move_of_mem hcarries ht
    exact hcarry.source_eq
  · obtain ⟨_, _, hcarry⟩ := exists_move_of_mem hcarries ht
    rw [h.size_eq]
    exact (List.getElem?_eq_some_iff.mp hcarry.target).1
  · rw [hstands.action_eq] at hbody
    cases hbody

/-- All states differ in their identifiers as long as there are no more states than words, and
nothing else can be wrong with the automaton. -/
theorem checkIntegrity_iff (h : Determinized nfa edges base initial dfa sets) :
    dfa.checkIntegrity = .ok () ↔ dfa.stateCount ≤ UInt32.size := by
  rw [Automaton.checkIntegrity_iff, ← nodup_words_iff base, ← h.ids_eq]
  refine ⟨fun hwf => hwf.distinct, fun hdistinct => ?_⟩
  have hpositive : 0 < dfa.stateCount := by
    rw [h.size_eq]
    exact (List.getElem?_eq_some_iff.mp h.start).1
  refine ⟨fun s hs => ?_, fun s hs => ?_, fun place s hs => h.fits hs, hdistinct,
    fun _ s hs t ht => ?_⟩
  · rw [h.initial_eq] at hs
    cases hs
    exact hpositive
  · rw [h.current_eq] at hs
    cases hs
    exact hpositive
  · obtain ⟨place, hplace⟩ := Array.mem_iff_getElem?.mp hs
    obtain ⟨_, _, _, hcarries⟩ := h.exists_set hplace
    obtain ⟨_, _, hcarry⟩ := exists_move_of_mem hcarries ht
    exact isEpsilon_eq_false hcarry

end Determinized

/-- Making an automaton deterministic, wherever it succeeds, keeps the language, and the result is
deterministic: every transition takes input, and no two transitions of a state take the same
character. It passes the integrity check, unless it has more states than there are identifiers. -/
theorem toDfaWithLimit_sound {nfa dfa : Automaton} {limit : Nat} {base nextId : UInt32}
    (hrun : (nfa.toDfaWithLimit limit).run base = (.ok dfa, nextId)) :
    (∀ input, dfa.accepts input = nfa.accepts input) ∧
      (dfa.checkIntegrity = .ok () ↔ dfa.stateCount ≤ UInt32.size) ∧
      dfa.isDeterministic = true ∧
      ∀ s ∈ dfa.states, (∀ t ∈ s.transitions, t.isEpsilon = false) ∧
        s.transitions.Pairwise
          fun t u => ∀ c, ¬ (t.matchesChar c = true ∧ u.matchesChar c = true) := by
  obtain ⟨initial, edges, sets, hinitial, hof, hmade⟩ := determinized_of_run hrun
  refine ⟨hmade.accepts_eq hof hinitial, hmade.checkIntegrity_iff, hmade.isDeterministic_eq_true,
    fun s hs => ?_⟩
  obtain ⟨place, hplace⟩ := Array.mem_iff_getElem?.mp hs
  obtain ⟨_, _, _, hcarries⟩ := hmade.exists_set hplace
  refine ⟨fun t ht => ?_, Determinized.pairwise_transitions hcarries⟩
  obtain ⟨_, _, hcarry⟩ := Determinized.exists_move_of_mem hcarries ht
  exact Determinized.isEpsilon_eq_false hcarry

/-- An automaton that takes the letter `b`, and accepts after one more step without input. -/
private def oneB : Automaton where
  kind := .nfa
  states := #[
    { State.new 0 false with
      transitions := [⟨0, 1, some ⟨['b'], .literal ['b'] false, rfl⟩, 0⟩] },
    { State.new 1 false with transitions := [⟨1, 2, none, 0⟩] },
    .new 2 true]
  initial := some 0
  current := none
  flags := .empty
  lastError := none

private theorem moves_oneB : moves [⟨⟨[(98, 98)]⟩, 1⟩] = [([1], [(98, 98)])] := by
  have hcuts : cutPoints [⟨⟨[(98, 98)]⟩, 1⟩] = [98, 99] := by
    have hsorted : [98, 99].mergeSort (· ≤ ·) = [98, 99] := List.mergeSort_of_pairwise (by decide)
    simp [cutPoints, ascending, hsorted, dropRepeats]
  have htargets : ascending [1] = [1] := by
    simp [ascending, dropRepeats]
  have hpoint : charOfCode? 98 = some 'b' := rfl
  simp [moves, intervals, hcuts, intervalsBetween, hpoint, containsCode, Text.inRanges, htargets,
    addToGroup]

private theorem run_toDfaWithLimit_oneB :
    ∃ dfa, (oneB.toDfaWithLimit 2).run 0 = (.ok dfa, 2) ∧ dfa.stateCount = 2 := by
  have hinitial : oneB.initial = some 0 := rfl
  have hedges : oneB.states.mapM stateEdges = .ok #[[⟨⟨[(98, 98)]⟩, 1⟩], [], []] := by
    rw [Array.mapM_eq_mapM_toList]
    rfl
  have hnone : moves [] = [] := by
    simp [moves, intervals, cutPoints, ascending, dropRepeats, intervalsBetween]
  have hranges : ofPairs [(98, 98)] = ⟨[(98, 98)]⟩ := by
    simp [ofPairs, mergeSorted, mergeFrom, withoutSurrogates]
  have hlabel : ∃ label, Label.ofText (CharRanges.mk [(98, 98)]).spec = .ok label := ⟨_, rfl⟩
  have hfirst : oneB.closure [0] = [0] := by
    simp [closure, Graph.depthFirst, Graph.unseen, stateCount, oneB, epsilonTargets,
      State.epsilonTargets, Transition.isEpsilon]
  have hsecond : oneB.closure [1] = [1, 2] := by
    have hsorted : [1, 2].mergeSort (· ≤ ·) = [1, 2] := List.mergeSort_of_pairwise (by decide)
    simp [closure, Graph.depthFirst, Graph.unseen, stateCount, oneB, epsilonTargets,
      State.epsilonTargets, Transition.isEpsilon, State.new, hsorted]
  obtain ⟨label, hlabel⟩ := hlabel
  simp [toDfaWithLimit, Subsets.run, Subsets.connectAll, Subsets.placeOf, Subsets.add, hinitial,
    hedges, moves_oneB, hnone, hranges, hlabel, hfirst, hsecond, freshId, addState, stateCount, connect,
    modifyState, empty]
  exact ⟨_, rfl, rfl⟩

theorem toDfaWithLimit_sound_oneB :
    ∃ dfa, (oneB.toDfaWithLimit 2).run 0 = (.ok dfa, 2) ∧
      (∀ input, dfa.accepts input = oneB.accepts input) ∧
      dfa.checkIntegrity = .ok () ∧ dfa.isDeterministic = true ∧
      ∀ s ∈ dfa.states, (∀ t ∈ s.transitions, t.isEpsilon = false) ∧
        s.transitions.Pairwise
          fun t u => ∀ c, ¬ (t.matchesChar c = true ∧ u.matchesChar c = true) := by
  obtain ⟨dfa, hrun, hcount⟩ := run_toDfaWithLimit_oneB
  obtain ⟨haccepts, hcheck, hrest⟩ := toDfaWithLimit_sound hrun
  have hsmall : dfa.stateCount ≤ UInt32.size := hcount ▸ by decide
  exact ⟨dfa, hrun, haccepts, hcheck.mpr hsmall, hrest⟩

end RegexEngine.Automaton
