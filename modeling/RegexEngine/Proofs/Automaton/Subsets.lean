import Mathlib.Data.List.Forall2
import Mathlib.Data.List.Nodup
import Mathlib.Data.List.TakeWhile
import Mathlib.Tactic.ByContra
import RegexEngine.Proofs.Automaton.Intervals
import RegexEngine.Proofs.CharClass.Spec

/-!
What making an automaton deterministic builds. The sets that were met are numbered by their states;
a set is met once, so two states never stand for the same set. `Built` relates an automaton under
construction to these sets and to the moves that were made from each of them: every transition
carries a move, in the order of moves.

Working on a waiting set adds its moves to the plan, and leaves all else as it is. The fuel is more
than the number of sets, so no set is left waiting.
-/

namespace RegexEngine.Automaton

open CharRanges

/-- A move: targets, and the intervals of characters that lead to them. -/
abbrev Move := List Nat × List (Nat × Nat)

namespace Subsets

variable {nfa : Automaton} {base : UInt32}

/-- The state of a set accepts if a member does, and does nothing else. -/
structure Stands (nfa : Automaton) (base : UInt32) (place : Nat) (members : List Nat) (s : State) :
    Prop where
  id_eq : s.id = base + UInt32.ofNat place
  accepting_eq : s.accepting = members.any fun u => nfa.states[u]?.any (·.accepting)
  marks_eq : s.marks = .empty
  action_eq : s.action = none

/-- A transition takes the characters of a move, and leads to the state of the set of its targets.
-/
structure Carries (nfa : Automaton) (sets : List (List Nat)) (source : Nat) (move : Move)
    (t : Transition) : Prop where
  source_eq : t.source = source
  priority_eq : t.priority = 0
  target : sets[t.target]? = some (nfa.closure move.1)
  ranges : ∃ r, t.ranges? = some r
  takes : ∀ c, t.matchesChar c = true ↔ Covers (ofPairs move.2).pairs c.toNat

/-- The automaton has a state for each set, with a transition for each move of the plan. -/
structure Built (nfa : Automaton) (base : UInt32) (b : Subsets) (sets : List (List Nat))
    (plan : Nat → List Move) (nextId : UInt32) : Prop where
  size_eq : b.dfa.stateCount = sets.length
  places_iff : ∀ (members : List Nat) (place : Nat),
    b.places[members]? = some place ↔ sets[place]? = some members
  state : ∀ (place : Nat) (members : List Nat), sets[place]? = some members →
    ∃ s, b.dfa.states[place]? = some s ∧ Stands nfa base place members s ∧
      List.Forall₂ (Carries nfa sets place) (plan place) s.transitions
  nextId_eq : nextId = base + UInt32.ofNat sets.length

theorem Carries.mono {sets : List (List Nat)} {source : Nat} {move : Move} {t : Transition}
    (h : Carries nfa sets source move t) (more : List (List Nat)) :
    Carries nfa (sets ++ more) source move t := by
  refine ⟨h.source_eq, h.priority_eq, ?_, h.ranges, h.takes⟩
  have hlt := (List.getElem?_eq_some_iff.mp h.target).1
  rw [List.getElem?_append_left hlt]
  exact h.target

/-- The automaton was extended by states for some more sets, which wait. -/
structure Extends (before after : Subsets) (sets more : List (List Nat)) (limit : Nat) : Prop where
  dfa_eq : after.dfa = { before.dfa with states := after.dfa.states }
  waiting_eq : after.waiting = before.waiting ++ more
  length_le : (sets ++ more).length ≤ max limit sets.length

theorem Extends.refl (b : Subsets) (sets : List (List Nat)) (limit : Nat) :
    Extends b b sets [] limit :=
  ⟨rfl, (List.append_nil _).symm, by
    rw [List.append_nil]
    exact Nat.le_max_right _ _⟩

theorem Extends.trans {first second third : Subsets} {sets more others : List (List Nat)}
    {limit : Nat} (h : Extends first second sets more limit)
    (h' : Extends second third (sets ++ more) others limit) :
    Extends first third sets (more ++ others) limit := by
  refine ⟨?_, ?_, ?_⟩
  · rw [h'.dfa_eq, h.dfa_eq]
  · rw [h'.waiting_eq, h.waiting_eq, List.append_assoc]
  · have hless := h.length_le
    have hless' := h'.length_le
    rw [← List.append_assoc]
    omega

/-- The state that is made for a new set. -/
def stateOf (nfa : Automaton) (members : List Nat) (id : UInt32) : State :=
  { State.new id (members.any fun s => nfa.states[s]?.any (·.accepting)) with
    note := some (noteOf members) }

/-- What adding a new set comes to. -/
def added (nfa : Automaton) (members : List Nat) (id : UInt32) (b : Subsets) : Subsets where
  dfa := { b.dfa with states := b.dfa.states.push (stateOf nfa members id) }
  places := b.places.insert members b.dfa.stateCount
  waiting := b.waiting ++ [members]

/-- A set that was not met before gets a state of its own. -/
theorem Built.added {b : Subsets} {sets : List (List Nat)} {plan : Nat → List Move}
    {nextId : UInt32} (h : Built nfa base b sets plan nextId)
    (hplan : ∀ place, sets.length ≤ place → plan place = []) {members : List Nat}
    (hnew : b.places[members]? = none) :
    Built nfa base (added nfa members nextId b) (sets ++ [members]) plan (nextId + 1) := by
  have hsize : b.dfa.states.size = sets.length := h.size_eq
  refine ⟨?_, ?_, ?_, ?_⟩
  · simp only [Subsets.added, stateCount, Array.size_push, List.length_append,
      List.length_singleton, hsize]
  · intro other place
    simp only [Subsets.added, stateCount, Std.HashMap.getElem?_insert, hsize, beq_iff_eq]
    rw [List.getElem?_append]
    by_cases heq : members = other
    · subst heq
      rw [if_pos rfl, Option.some.injEq]
      by_cases hlt : place < sets.length
      · rw [if_pos hlt, ← h.places_iff, hnew]
        simp only [reduceCtorEq, iff_false]
        omega
      · rw [if_neg hlt, List.getElem?_singleton]
        split
        · simp
          omega
        · simp
          omega
    · rw [if_neg heq, h.places_iff]
      by_cases hlt : place < sets.length
      · rw [if_pos hlt]
      · rw [if_neg hlt, List.getElem?_eq_none (Nat.le_of_not_lt hlt), List.getElem?_singleton]
        split
        · simp [heq]
        · simp
  · intro place other hplace
    by_cases hlt : place < sets.length
    · rw [List.getElem?_append_left hlt] at hplace
      obtain ⟨s, hs, hstands, hcarries⟩ := h.state place other hplace
      refine ⟨s, ?_, hstands, hcarries.imp fun _ _ hmove => hmove.mono [members]⟩
      have hplace : place < b.dfa.states.size := (Array.getElem?_eq_some_iff.mp hs).1
      simp only [Subsets.added]
      rw [Array.getElem?_push_lt hplace, ← hs, Array.getElem?_eq_getElem hplace]
    · have hend : place = sets.length := by
        have hbound := (List.getElem?_eq_some_iff.mp hplace).1
        rw [List.length_append, List.length_singleton] at hbound
        omega
      subst hend
      rw [List.getElem?_concat_length] at hplace
      obtain rfl := Option.some.inj hplace
      refine ⟨stateOf nfa members nextId, ?_, ⟨h.nextId_eq, rfl, rfl, rfl⟩, ?_⟩
      · simp only [Subsets.added, ← hsize]
        exact Array.getElem?_push_size
      · rw [hplan sets.length (Nat.le_refl _)]
        exact .nil
  · rw [h.nextId_eq, List.length_append, List.length_singleton, UInt32.add_assoc]
    congr 1
    rw [UInt32.ofNat_add]
    rfl

/-- A set is met once. -/
theorem Built.nodup {b : Subsets} {sets : List (List Nat)} {plan : Nat → List Move}
    {nextId : UInt32} (h : Built nfa base b sets plan nextId) : sets.Nodup := by
  refine List.nodup_iff_injective_getElem.mpr fun place other heq => ?_
  have hplace := (h.places_iff sets[place] place).mpr (List.getElem?_eq_getElem place.isLt)
  have hother := (h.places_iff sets[other] other).mpr (List.getElem?_eq_getElem other.isLt)
  have heq : sets[place] = sets[other] := heq
  rw [heq] at hplace
  exact Fin.ext (Option.some.inj (hplace.symm.trans hother))

/-- More sets were met than may have states. -/
structure Overflows (limit : Nat) (sets : List (List Nat)) (e : Error) : Prop where
  error_eq : e = (AutomatonFault.tooManySubsets limit).error
  nodup : sets.Nodup
  limit_lt : limit < sets.length

/-- Looking up a set answers with its state, which is new if the set is. -/
theorem Built.placeOf {b : Subsets} {sets : List (List Nat)} {plan : Nat → List Move}
    {nextId : UInt32} (h : Built nfa base b sets plan nextId)
    (hplan : ∀ place, sets.length ≤ place → plan place = []) {limit : Nat} {members : List Nat}
    {place : Nat} {b' : Subsets} {nextId' : UInt32}
    (hrun : (placeOf nfa limit members b).run nextId = (.ok (place, b'), nextId')) :
    ∃ more, (∀ m ∈ more, m = members) ∧ Built nfa base b' (sets ++ more) plan nextId' ∧
      (sets ++ more)[place]? = some members ∧ Extends b b' sets more limit := by
  unfold Subsets.placeOf at hrun
  split at hrun
  · rename_i known hknown
    cases hrun
    refine ⟨[], by simp, by simpa using h, ?_, .refl _ _ _⟩
    rw [List.append_nil]
    exact (h.places_iff members place).mp hknown
  · rename_i hnew
    split at hrun
    · cases hrun
    · rename_i hroom
      have hrun' : ((Except.ok (b.dfa.stateCount, Subsets.added nfa members nextId b) :
          Except Error (Nat × Subsets)), nextId + 1) = (.ok (place, b'), nextId') := hrun
      cases hrun'
      refine ⟨[members], by simp, h.added hplan hnew, ?_, rfl, rfl, ?_⟩
      · rw [h.size_eq]
        exact List.getElem?_concat_length
      · rw [h.size_eq] at hroom
        rw [List.length_append, List.length_singleton]
        omega

/-- A set finds no state only if it is new and there is no room for one more. -/
theorem Built.placeOf_error {b : Subsets} {sets : List (List Nat)} {plan : Nat → List Move}
    {nextId : UInt32} (h : Built nfa base b sets plan nextId) {limit : Nat} {members : List Nat}
    {e : Error} {nextId' : UInt32}
    (hrun : (Subsets.placeOf nfa limit members b).run nextId = (.error e, nextId')) :
    Overflows limit (sets ++ [members]) e := by
  unfold Subsets.placeOf at hrun
  split at hrun
  · cases hrun
  · rename_i hnew
    split at hrun
    · rename_i hfull
      rw [h.size_eq] at hfull
      cases hrun
      refine ⟨rfl, ?_, by simpa using Nat.lt_succ_of_le hfull⟩
      rw [← List.concat_eq_append, List.nodup_concat]
      refine ⟨fun hmem => ?_, h.nodup⟩
      obtain ⟨place, hplace⟩ := List.mem_iff_getElem?.mp hmem
      rw [(h.places_iff members place).mpr hplace] at hnew
      cases hnew
    · cases hrun

/-- A plan with some more moves from a state. -/
def withMoves (plan : Nat → List Move) (source : Nat) (moves : List Move) : Nat → List Move :=
  fun place => if place = source then plan place ++ moves else plan place

theorem withMoves_nil (plan : Nat → List Move) (source : Nat) : withMoves plan source [] = plan := by
  funext place
  simp [withMoves]

theorem withMoves_cons (plan : Nat → List Move) (source : Nat) (move : Move) (rest : List Move) :
    withMoves plan source (move :: rest) =
      withMoves (withMoves plan source [move]) source rest := by
  funext place
  by_cases heq : place = source <;> simp [withMoves, heq]

theorem withMoves_eq_nil {plan : Nat → List Move} {source count : Nat} (hsource : source < count)
    (hplan : ∀ place, count ≤ place → plan place = []) (moves : List Move) :
    ∀ place, count ≤ place → withMoves plan source moves place = [] := by
  intro place hplace
  rw [withMoves, if_neg (by omega)]
  exact hplan place hplace

/-- With equal priorities, a new transition comes last. -/
theorem transitions_addTransition {s : State} {t : Transition}
    (h : ∀ other ∈ s.transitions, other.priority = t.priority) :
    (s.addTransition t).transitions = s.transitions ++ [t] := by
  have hall : ∀ other ∈ s.transitions, decide (t.priority ≤ other.priority) = true := by
    intro other hother
    simp [h other hother]
  simp only [State.addTransition]
  rw [List.takeWhile_eq_self_iff.mpr hall, List.dropWhile_eq_nil_iff.mpr hall]

/-- A transition that takes the characters of a move to the set of its targets adds the move to the
plan. -/
theorem Built.connect {b : Subsets} {sets : List (List Nat)} {plan : Nat → List Move}
    {nextId : UInt32} (h : Built nfa base b sets plan nextId) {source place : Nat} {move : Move}
    (hplace : sets[place]? = some (nfa.closure move.1)) {label : Label} {r : CharRanges}
    (hranges : label.matcher.ranges? = some r)
    (htakes : ∀ c, label.matcher.matchesChar c = true ↔ Covers (ofPairs move.2).pairs c.toNat) :
    Built nfa base { b with dfa := b.dfa.connect source place (some label) 0 } sets
      (withMoves plan source [move]) nextId := by
  refine ⟨?_, h.places_iff, ?_, h.nextId_eq⟩
  · simpa [stateCount, Automaton.connect, modifyState] using h.size_eq
  · intro other members hother
    obtain ⟨s, hs, hstands, hcarries⟩ := h.state other members hother
    have hstates : (b.dfa.connect source place (some label) 0).states[other]? =
        if source = other then some (s.addTransition ⟨source, place, some label, 0⟩)
        else some s := by
      simp only [Automaton.connect, modifyState, Array.getElem?_modify, hs]
      split <;> rfl
    rw [hstates]
    by_cases heq : source = other
    · subst heq
      have hpriority : ∀ t ∈ s.transitions, t.priority = 0 := by
        intro t ht
        obtain ⟨k, hk, rfl⟩ := List.mem_iff_getElem.mp ht
        have hlength := hcarries.length_eq
        exact (hcarries.get (hlength ▸ hk) hk).priority_eq
      refine ⟨_, if_pos rfl, ⟨hstands.id_eq, hstands.accepting_eq, hstands.marks_eq,
        hstands.action_eq⟩, ?_⟩
      rw [transitions_addTransition hpriority, withMoves, if_pos rfl]
      exact List.rel_append hcarries (.cons ⟨rfl, rfl, hplace, ⟨r, hranges⟩, htakes⟩ .nil)
    · refine ⟨s, if_neg heq, hstands, ?_⟩
      rw [withMoves, if_neg (Ne.symm heq)]
      exact hcarries

/-- What making the transitions of a state comes to, where some more sets are met: they have states
and the plan is carried out, or they are too many. -/
def Connected (nfa : Automaton) (base : UInt32) (limit : Nat) (before : Subsets)
    (sets more : List (List Nat)) (plan : Nat → List Move) : Except Error Subsets → UInt32 → Prop
  | .ok after, nextId =>
    Built nfa base after (sets ++ more) plan nextId ∧ Extends before after sets more limit
  | .error e, _ => Overflows limit (sets ++ more) e

/-- Making the transitions of a state adds its moves to the plan, and a state for each new set, as
long as there is room. -/
theorem Built.connectAll {limit source : Nat} (todo : List Move) :
    ∀ {b : Subsets} {sets : List (List Nat)} {plan : Nat → List Move} {nextId nextId' : UInt32}
      {result : Except Error Subsets},
      Built nfa base b sets plan nextId → (∀ place, sets.length ≤ place → plan place = []) →
        source < sets.length →
          (∀ move ∈ todo, Normal (ofPairs move.2).pairs ∧ (ofPairs move.2).pairs ≠ []) →
            (connectAll nfa limit source todo b).run nextId = (result, nextId') →
              ∃ more, (∀ m ∈ more, ∃ move ∈ todo, m = nfa.closure move.1) ∧
                Connected nfa base limit b sets more (withMoves plan source todo) result nextId' := by
  induction todo with
  | nil =>
    intro b sets plan nextId nextId' result h _ _ _ hrun
    cases hrun
    rw [withMoves_nil]
    exact ⟨[], by simp, by rwa [List.append_nil], .refl _ _ _⟩
  | cons move rest ih =>
    intro b sets plan nextId nextId' result h hplan hsource hmoves hrun
    obtain ⟨targets, pairs⟩ := move
    rw [Subsets.connectAll, StateT.run_bind] at hrun
    rcases hplaced : (Subsets.placeOf nfa limit (nfa.closure targets) b).run nextId with
      ⟨e | ⟨place, b₁⟩, nextId₁⟩
    · rw [hplaced] at hrun
      cases hrun
      refine ⟨[nfa.closure targets], fun m hm => ?_, h.placeOf_error hplaced⟩
      exact ⟨_, List.mem_cons_self, List.mem_singleton.mp hm⟩
    · rw [hplaced] at hrun
      obtain ⟨more, hmore, hbuilt, hplace, hextends⟩ := h.placeOf hplan hplaced
      obtain ⟨hnormal, hne⟩ := hmoves (targets, pairs) List.mem_cons_self
      obtain ⟨label, r, hlabel, hranges, htakes⟩ := label_of_spec hnormal hne
      have hconnected := @Built.connect _ _ _ _ _ _ hbuilt source place (targets, pairs) hplace
        label r hranges htakes
      rw [hlabel] at hrun
      have hcount : sets.length ≤ (sets ++ more).length := by simp
      obtain ⟨others, hothers, hfinal⟩ := ih hconnected
        (withMoves_eq_nil (Nat.lt_of_lt_of_le hsource hcount)
          (fun place hplace => hplan place (Nat.le_trans hcount hplace)) _)
        (Nat.lt_of_lt_of_le hsource hcount)
        (fun move hmove => hmoves move (List.mem_cons_of_mem _ hmove)) hrun
      refine ⟨more ++ others, fun m hm => ?_, ?_⟩
      · rcases List.mem_append.mp hm with hm | hm
        · exact ⟨_, List.mem_cons_self, hmore m hm⟩
        · obtain ⟨move, hmove, hclosure⟩ := hothers m hm
          exact ⟨move, List.mem_cons_of_mem _ hmove, hclosure⟩
      · rw [withMoves_cons]
        cases result with
        | error e =>
          rw [Connected, List.append_assoc] at hfinal
          exact hfinal
        | ok after =>
          obtain ⟨hfinal, hextends'⟩ := hfinal
          rw [List.append_assoc] at hfinal
          exact ⟨hfinal,
            hextends.trans ⟨hextends'.dfa_eq, hextends'.waiting_eq, hextends'.length_le⟩⟩

/-- The edges that leave the members of a set. -/
def leaving (edges : Array (List Edge)) (members : List Nat) : List Edge :=
  members.flatMap fun s => edges[s]?.getD []

/-- The moves from the sets that were worked on. -/
def planOf (edges : Array (List Edge)) (sets : List (List Nat)) (done : Nat) : Nat → List Move :=
  fun place => if place < done then moves (leaving edges (sets[place]?.getD [])) else []

/-- Every set after the first is where a move from an earlier one leads. -/
def Grown (nfa : Automaton) (edges : Array (List Edge)) (sets : List (List Nat)) : Prop :=
  ∀ place members, sets[place + 1]? = some members → ∃ earlier ≤ place, ∃ source,
    sets[earlier]? = some source ∧ ∃ move ∈ moves (leaving edges source),
      members = nfa.closure move.1

theorem Grown.append {edges : Array (List Edge)} {sets more : List (List Nat)} {done : Nat}
    {source : List Nat} (h : Grown nfa edges sets) (hsource : sets[done]? = some source)
    (hmore : ∀ m ∈ more, ∃ move ∈ moves (leaving edges source), m = nfa.closure move.1) :
    Grown nfa edges (sets ++ more) := by
  intro place members hplace
  have hkeeps {k : Nat} {m : List Nat} (hk : sets[k]? = some m) : (sets ++ more)[k]? = some m := by
    rw [List.getElem?_append_left (List.getElem?_eq_some_iff.mp hk).1, hk]
  by_cases hlt : place + 1 < sets.length
  · rw [List.getElem?_append_left hlt] at hplace
    obtain ⟨earlier, hle, source', hsource', hmove⟩ := h place members hplace
    exact ⟨earlier, hle, source', hkeeps hsource', hmove⟩
  · rw [List.getElem?_append_right (Nat.le_of_not_lt hlt)] at hplace
    have hdone := (List.getElem?_eq_some_iff.mp hsource).1
    exact ⟨done, by omega, source, hkeeps hsource, hmore members (List.mem_of_getElem? hplace)⟩

/-- The first sets were worked on, and the others wait in the order in which they were met. -/
structure Working (nfa : Automaton) (edges : Array (List Edge)) (base : UInt32) (limit : Nat)
    (b : Subsets) (sets : List (List Nat)) (done : Nat) (nextId : UInt32) : Prop where
  built : Built nfa base b sets (planOf edges sets done) nextId
  waiting_eq : b.waiting = sets.drop done
  done_le : done ≤ sets.length
  length_le : sets.length ≤ max limit 1
  grown : Grown nfa edges sets

/-- The edges of transitions that take one character each have ranges in normal form. -/
def NormalEdges (edges : Array (List Edge)) : Prop :=
  ∀ members, ∀ e ∈ leaving edges members, Normal e.ranges.pairs

theorem Working.built_without_first {edges : Array (List Edge)} {limit done : Nat} {b : Subsets}
    {sets : List (List Nat)} {nextId : UInt32}
    (h : Working nfa edges base limit b sets done nextId) (waiting : List (List Nat)) :
    Built nfa base { b with waiting := waiting } sets (planOf edges sets done) nextId :=
  ⟨h.built.size_eq, h.built.places_iff, h.built.state, h.built.nextId_eq⟩

/-- What working on the first of the sets that wait comes to, where some more sets are met. -/
def Stepped (nfa : Automaton) (edges : Array (List Edge)) (base : UInt32) (limit : Nat)
    (before : Subsets) (sets : List (List Nat)) (done : Nat) : Except Error Subsets → UInt32 → Prop
  | .ok after, nextId => Working nfa edges base limit after sets done nextId ∧
      after.dfa = { before.dfa with states := after.dfa.states }
  | .error e, _ => Overflows limit sets e ∧ Grown nfa edges sets

/-- Working on the first set that waits. -/
theorem Working.step {edges : Array (List Edge)} {limit done : Nat} {b : Subsets}
    {sets : List (List Nat)} {nextId nextId' : UInt32} {result : Except Error Subsets}
    (hedges : NormalEdges edges)
    (h : Working nfa edges base limit b sets done nextId) {members : List Nat}
    {waiting : List (List Nat)} (hwaiting : b.waiting = members :: waiting)
    (hrun : (Subsets.connectAll nfa limit (b.places[members]?.getD 0) (moves (leaving edges members))
      { b with waiting := waiting }).run nextId = (result, nextId')) :
    ∃ more, Stepped nfa edges base limit b (sets ++ more) (done + 1) result nextId' := by
  have hdrop : sets.drop done = members :: waiting := h.waiting_eq.symm.trans hwaiting
  have hdone : done < sets.length := by
    by_contra hge
    rw [List.drop_eq_nil_of_le (Nat.le_of_not_lt hge)] at hdrop
    cases hdrop
  have hcons := List.drop_eq_getElem_cons hdone
  rw [hdrop] at hcons
  obtain ⟨hmembers, hrest⟩ := List.cons.inj hcons
  have hplace : sets[done]? = some members := by
    rw [List.getElem?_eq_getElem hdone, hmembers]
  have hplan : ∀ place, sets.length ≤ place → planOf edges sets done place = [] := by
    intro place hplace
    rw [planOf, if_neg (by omega)]
  have hmoves : ∀ move ∈ moves (leaving edges members),
      Normal (ofPairs move.2).pairs ∧ (ofPairs move.2).pairs ≠ [] := by
    intro move hmove
    exact ⟨normal_of_mem_moves (hedges members) hmove, ofPairs_ne_nil_of_mem_moves hmove⟩
  rw [(h.built.places_iff members done).mpr hplace, Option.getD_some] at hrun
  obtain ⟨more, hmore, hconnected⟩ :=
    (h.built_without_first waiting).connectAll _ hplan hdone hmoves hrun
  have hgrown := h.grown.append hplace hmore
  refine ⟨more, ?_⟩
  cases result with
  | error e => exact ⟨hconnected, hgrown⟩
  | ok after =>
    obtain ⟨hbuilt, hextends⟩ := hconnected
    have hplan' : withMoves (planOf edges sets done) done (moves (leaving edges members)) =
        planOf edges (sets ++ more) (done + 1) := by
      funext place
      unfold withMoves planOf
      by_cases heq : place = done
      · subst heq
        rw [if_pos rfl, if_neg (Nat.lt_irrefl _), if_pos (Nat.lt_succ_self _), List.nil_append,
          List.getElem?_append_left hdone, hplace, Option.getD_some]
      · rw [if_neg heq]
        by_cases hlt : place < done
        · rw [if_pos hlt, if_pos (by omega), List.getElem?_append_left (by omega)]
        · rw [if_neg hlt, if_neg (by omega)]
    refine ⟨⟨hplan' ▸ hbuilt, ?_, ?_, ?_, hgrown⟩, hextends.dfa_eq⟩
    · rw [hextends.waiting_eq, List.drop_append_of_le_length hdone, ← hrest]
    · rw [List.length_append]
      omega
    · have hless := hextends.length_le
      have hless' := h.length_le
      omega

/-- The rounds, however many there are: each works on the first set that waits, until none waits or
there is no room for a set. -/
inductive RoundsEnd (nfa : Automaton) (edges : Array (List Edge)) (limit : Nat) :
    Subsets → UInt32 → Except Error Automaton → UInt32 → Prop
  | finished {b : Subsets} {nextId : UInt32} (hwaiting : b.waiting = []) :
      RoundsEnd nfa edges limit b nextId (.ok b.dfa) nextId
  | stopped {b : Subsets} {members : List Nat} {waiting : List (List Nat)} {e : Error}
      {nextId nextId' : UInt32} (hwaiting : b.waiting = members :: waiting)
      (hround : (connectAll nfa limit (b.places[members]?.getD 0) (moves (leaving edges members))
        { b with waiting := waiting }).run nextId = (.error e, nextId')) :
      RoundsEnd nfa edges limit b nextId (.error e) nextId'
  | round {b after : Subsets} {members : List Nat} {waiting : List (List Nat)}
      {result : Except Error Automaton} {nextId nextId' nextId'' : UInt32}
      (hwaiting : b.waiting = members :: waiting)
      (hround : (connectAll nfa limit (b.places[members]?.getD 0) (moves (leaving edges members))
        { b with waiting := waiting }).run nextId = (.ok after, nextId'))
      (hrest : RoundsEnd nfa edges limit after nextId' result nextId'') :
      RoundsEnd nfa edges limit b nextId result nextId''

/-- What working until no set waits comes to, where these sets are met. -/
def Worked (nfa : Automaton) (edges : Array (List Edge)) (base : UInt32) (limit : Nat)
    (before : Automaton) (sets : List (List Nat)) : Except Error Automaton → UInt32 → Prop
  | .ok dfa, nextId => ∃ after, after.dfa = dfa ∧
      Working nfa edges base limit after sets sets.length nextId ∧
        dfa = { before with states := dfa.states }
  | .error e, _ => Overflows limit sets e ∧ Grown nfa edges sets

/-- Working until no set waits. The fuel and the number of sets that were worked on add up to more
than there can be sets, so the rounds end before it does. -/
theorem Working.run {edges : Array (List Edge)} {limit : Nat} (hedges : NormalEdges edges)
    (fuel : Nat) :
    ∀ {b : Subsets} {sets : List (List Nat)} {done : Nat} {nextId : UInt32},
      Working nfa edges base limit b sets done nextId → fuel + done = limit + 2 →
        ∃ result nextId' more,
          (Subsets.run nfa edges limit fuel b).run nextId = (result, nextId') ∧
            RoundsEnd nfa edges limit b nextId result nextId' ∧
              Worked nfa edges base limit b.dfa (sets ++ more) result nextId' := by
  induction fuel with
  | zero =>
    intro b sets done nextId h hfuel
    have hdone := h.done_le
    have hlength := h.length_le
    omega
  | succ fuel ih =>
    intro b sets done nextId h hfuel
    rw [Subsets.run.eq_def]
    dsimp only
    cases hwaiting : b.waiting with
    | nil =>
      have hdone : done = sets.length := by
        have hdrop := h.waiting_eq
        rw [hwaiting, eq_comm, List.drop_eq_nil_iff] at hdrop
        exact Nat.le_antisymm h.done_le hdrop
      refine ⟨.ok b.dfa, nextId, [], rfl, .finished hwaiting, b, rfl, ?_, rfl⟩
      rw [List.append_nil, ← hdone]
      exact h
    | cons members waiting =>
      rcases hstep : (Subsets.connectAll nfa limit (b.places[members]?.getD 0)
          (moves (leaving edges members)) { b with waiting := waiting }).run nextId with
        ⟨e | after, nextId₁⟩
      all_goals
        obtain ⟨more, hstepped⟩ := h.step hedges hwaiting hstep
        have hround := hstep
        rw [leaving] at hstep
        rw [StateT.run_bind, hstep]
      · exact ⟨.error e, nextId₁, more, rfl, .stopped hwaiting hround, hstepped⟩
      · obtain ⟨hworking, hdfa⟩ := hstepped
        obtain ⟨result, nextId', others, hrun, hends, hworked⟩ := ih hworking (by omega)
        refine ⟨result, nextId', more ++ others, hrun, .round hwaiting hround hends, ?_⟩
        rw [List.append_assoc] at hworked
        cases result with
        | error e => exact hworked
        | ok dfa =>
          obtain ⟨b', hb', hfinal, hdfa'⟩ := hworked
          exact ⟨b', hb', hfinal, by rw [hdfa', hdfa]⟩

/-- The construction before its first round, where the set of what the initial state enters waits. -/
def begun (nfa : Automaton) (initial : Nat) (base : UInt32) : Subsets :=
  let first :=
    Subsets.added nfa (nfa.closure [initial]) base ⟨{ empty .dfa with flags := nfa.flags }, ∅, []⟩
  { first with dfa := { first.dfa with initial := some 0, current := some 0 } }

theorem working_begun (nfa : Automaton) (edges : Array (List Edge)) (base : UInt32)
    (limit initial : Nat) :
    Working nfa edges base limit (begun nfa initial base) [nfa.closure [initial]] 0 (base + 1) := by
  have hnone : Built nfa base ⟨{ empty .dfa with flags := nfa.flags }, ∅, []⟩ []
      (planOf edges [] 0) base :=
    ⟨rfl, by simp, by simp, by simp⟩
  have hbuilt := @Built.added _ _ _ _ _ _ hnone (fun _ _ => rfl) (nfa.closure [initial]) (by simp)
  exact ⟨⟨hbuilt.size_eq, hbuilt.places_iff, hbuilt.state, hbuilt.nextId_eq⟩, rfl, Nat.zero_le _,
    Nat.le_max_right _ _, fun _ _ hplace => by cases hplace⟩

end Subsets

/-- With edges for every state, making the automaton deterministic comes down to the rounds. -/
theorem run_toDfaWithLimit {nfa : Automaton} {edges : Array (List Edge)} {initial : Nat}
    (hinitial : nfa.initial = some initial) (hedges : nfa.states.mapM stateEdges = .ok edges)
    (limit : Nat) (base : UInt32) :
    (nfa.toDfaWithLimit limit).run base =
      (Subsets.run nfa edges limit (limit + 2) (Subsets.begun nfa initial base)).run (base + 1) := by
  unfold toDfaWithLimit
  simp only [hinitial, hedges]
  rfl

end RegexEngine.Automaton
