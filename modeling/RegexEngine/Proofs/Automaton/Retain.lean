import Mathlib.Data.List.Nodup
import RegexEngine.Proofs.Automaton.Trim

/-!
Keeping some states of an automaton. The states that are kept get the places that they have among
themselves. Where they are closed, that is, lead to each other only, nothing of them is lost.
-/

namespace RegexEngine.Automaton

variable {a : Automaton} {keep : Array Bool}

/-- The states that a table names, in order. -/
def keptStates (a : Automaton) (keep : Array Bool) : List Nat :=
  (List.range a.stateCount).filter fun s => keep[s]?.getD false

/-- A state that is kept, at its new place among others. -/
def movedState (kept : List Nat) (i : Nat) (state : State) : State :=
  { state with
    transitions := state.transitions.filterMap fun t =>
      (kept.idxOf? t.target).map fun target => { t with source := i, target := target }
    action := state.action.map (·.mapBody fun s => (kept.idxOf? s).getD s) }

theorem mem_keptStates {s : Nat} :
    s ∈ a.keptStates keep ↔ s < a.stateCount ∧ keep[s]?.getD false = true := by
  simp [keptStates]

theorem nodup_keptStates : (a.keptStates keep).Nodup :=
  List.nodup_range.filter _

/-- The table of new places. -/
theorem join_places (kept : List Nat) (hnodup : kept.Nodup) (size : Nat)
    (hlt : ∀ s ∈ kept, s < size) (s : Nat) :
    ((kept.zipIdx.foldl (fun table (s, i) => table.setIfInBounds s (some i))
      (Array.replicate size (none : Option Nat)))[s]?).join = kept.idxOf? s := by
  have hkeys : (kept.zipIdx.map Prod.fst).Nodup := by rwa [List.zipIdx_map_fst]
  change ((Graph.store Prod.fst (fun item : Nat × Nat => some item.2) _ kept.zipIdx)[s]?).join = _
  by_cases hs : s ∈ kept
  · obtain ⟨i, hi, rfl⟩ := List.mem_iff_getElem.mp hs
    have hitem : (kept[i], i) ∈ kept.zipIdx := by
      rw [List.mem_zipIdx_iff_getElem?]
      exact List.getElem?_eq_getElem hi
    rw [Graph.getElem?_store Prod.fst _ _ hkeys hitem (by simpa using hlt _ hs), Option.join_some]
    refine (List.idxOf?_eq_some_iff.mpr ⟨hi, rfl, fun j hj heq => ?_⟩).symm
    exact List.pairwise_iff_getElem.mp hnodup j i (by omega) hi hj heq
  · rw [Graph.getElem?_store_of_not_mem Prod.fst _ _ (by rwa [List.zipIdx_map_fst]),
      Array.getElem?_replicate, List.idxOf?_eq_none_iff.mpr hs]
    split <;> rfl

/-- An automaton of kept states, by where each of them is put. -/
private def retained (a : Automaton) (kept : List Nat) (place : Nat → Option Nat) : Automaton :=
  { a with
    states := (kept.zipIdx.filterMap fun (s, i) => a.states[s]?.map fun state =>
      { state with
        transitions := state.transitions.filterMap fun t =>
          (place t.target).map fun target => { t with source := i, target := target }
        action := state.action.map (·.mapBody fun s => (place s).getD s) }).toArray
    initial := a.initial.bind place
    current := (a.current.bind place).or (a.initial.bind place) }

theorem retain_eq (a : Automaton) (keep : Array Bool) :
    a.retain keep = { a with
      states := ((a.keptStates keep).zipIdx.filterMap fun (s, i) =>
        a.states[s]?.map (movedState (a.keptStates keep) i)).toArray
      initial := a.initial.bind fun s => (a.keptStates keep).idxOf? s
      current := (a.current.bind fun s => (a.keptStates keep).idxOf? s).or
        (a.initial.bind fun s => (a.keptStates keep).idxOf? s) } := by
  have hplaces := funext (join_places (a.keptStates keep) nodup_keptStates a.stateCount
    fun s hs => (mem_keptStates.mp hs).1)
  exact congrArg (a.retained (a.keptStates keep)) hplaces

theorem states_retain (a : Automaton) (keep : Array Bool) : (a.retain keep).states =
    ((a.keptStates keep).zipIdx.map fun (s, i) =>
      movedState (a.keptStates keep) i (a.states[s]?.getD (.new 0 false))).toArray := by
  rw [retain_eq, ← List.filterMap_eq_map]
  refine congrArg List.toArray (List.filterMap_congr fun item hitem => ?_)
  have hmem := List.mem_of_getElem? (List.mem_zipIdx_iff_getElem?.mp hitem)
  have hlt : item.1 < a.states.size := (mem_keptStates.mp hmem).1
  simp [Array.getElem?_eq_getElem hlt]

theorem stateCount_retain : (a.retain keep).stateCount = (a.keptStates keep).length := by
  simp [stateCount, states_retain]

theorem ids_retain : (a.retain keep).states.toList.map (·.id) =
    (a.keptStates keep).map fun s => (a.states[s]?.getD (.new 0 false)).id := by
  rw [states_retain, List.toList_toArray, List.map_map]
  refine List.ext_getElem? fun i => ?_
  simp [List.getElem?_zipIdx, Function.comp_def, movedState]

/-- A state of what is left is one that was kept. -/
theorem getElem?_retain {i : Nat} {state' : State} :
    (a.retain keep).states[i]? = some state' ↔ ∃ s state, (a.keptStates keep)[i]? = some s ∧
      a.states[s]? = some state ∧ state' = movedState (a.keptStates keep) i state := by
  simp only [states_retain, List.getElem?_toArray, List.getElem?_map, List.getElem?_zipIdx,
    Nat.zero_add, Option.map_map, Option.map_eq_some_iff, Function.comp_apply]
  constructor
  · rintro ⟨s, hs, rfl⟩
    have hlt : s < a.states.size := (mem_keptStates.mp (List.mem_of_getElem? hs)).1
    exact ⟨s, a.states[s], hs, Array.getElem?_eq_getElem hlt, by simp [hlt]⟩
  · rintro ⟨s, state, hs, hstate, rfl⟩
    exact ⟨s, hs, by simp [hstate]⟩

/-! Closed states. -/

theorem idxOf?_of_mem {kept : List Nat} {s : Nat} (hs : s ∈ kept) :
    kept.idxOf? s = some (kept.idxOf s) :=
  List.findIdx?_eq_some_of_exists ⟨s, hs, by simp⟩

theorem idxOf?_eq_some_iff {kept : List Nat} {s i : Nat} :
    kept.idxOf? s = some i ↔ s ∈ kept ∧ kept.idxOf s = i := by
  by_cases hs : s ∈ kept
  · rw [idxOf?_of_mem hs, Option.some.injEq, and_iff_right hs]
  · rw [List.idxOf?_eq_none_iff.mpr hs]
    simp [hs]

/-- The transitions of a kept state that are kept go to kept states. -/
theorem mem_movedState_iff {kept : List Nat} {i : Nat} {state : State} {t : Transition} :
    t ∈ (movedState kept i state).transitions ↔ ∃ e ∈ state.transitions, e.target ∈ kept ∧
      { e with source := i, target := kept.idxOf e.target } = t := by
  simp only [movedState, List.mem_filterMap, Option.map_eq_some_iff, idxOf?_eq_some_iff, and_assoc,
    exists_and_left, exists_eq_left']

/-- Where a place in a list is that of a state, the state stands there. -/
theorem getElem?_idxOf {kept : List Nat} {s : Nat} (hs : s ∈ kept) :
    kept[kept.idxOf s]? = some s :=
  List.getElem?_idxOf hs

/-- Only the start of the body matters to where an action is moved. -/
theorem mapBody_congr {action : Action} {f g : Nat → Nat}
    (h : ∀ body, action.body? = some body → f body = g body) :
    action.mapBody f = action.mapBody g := by
  cases action with
  | look kind body => exact congrArg (Action.look kind) (h body rfl)
  | atomic body => exact congrArg Action.atomic (h body rfl)
  | branch condition =>
    cases condition with
    | group index => rfl
    | look kind body => exact congrArg (fun b => Action.branch (.look kind b)) (h body rfl)
  | backref group nocase => rfl
  | fail => rfl
  | accept => rfl
  | commit => rfl

theorem body?_mapBody (action : Action) (f : Nat → Nat) :
    (action.mapBody f).body? = action.body?.map f := by
  cases action with
  | branch condition => cases condition <;> rfl
  | _ => rfl

/-- The states that are kept lead to each other only, and have all groups. -/
structure KeepsAll (a : Automaton) (keep : Array Bool) : Prop where
  closed : ∀ s ∈ a.keptStates keep, ∀ state, a.states[s]? = some state →
    ∀ t ∈ state.successors, t ∈ a.keptStates keep
  grouped : ∀ s state, a.states[s]? = some state → state.groupIndex ≠ none → s ∈ a.keptStates keep

theorem KeepsAll.bodies (h : a.KeepsAll keep) : ∀ s ∈ a.keptStates keep, ∀ state,
    a.states[s]? = some state →
      ∀ body, state.action.bind Action.body? = some body → body ∈ a.keptStates keep :=
  fun s hs state hstate body hbody =>
    h.closed s hs state hstate body (Contraction.mem_successors_body hbody)

theorem filterMap_moved {kept : List Nat} {ts : List Transition} (i : Nat)
    (h : ∀ t ∈ ts, t.target ∈ kept) :
    (ts.filterMap fun t => (kept.idxOf? t.target).map fun target =>
      { t with source := i, target := target }) =
        ts.map fun t => { t with source := i, target := kept.idxOf t.target } := by
  rw [← List.filterMap_eq_map]
  refine List.filterMap_congr fun t ht => ?_
  simp [idxOf?_of_mem (h t ht)]

theorem thinned_map {place : Nat → Nat} {f : Transition → Transition}
    (hf : ∀ t, (f t).Imitates place t) (ts before : List Transition) :
    Thinned place before ts (ts.map f) := by
  induction ts generalizing before with
  | nil => exact .nil
  | cons t ts ih => exact .keep (hf t) (ih _)

theorem forall₂_map {place : Nat → Nat} {f : Transition → Transition}
    (hf : ∀ t, (f t).Imitates place t) (ts : List Transition) :
    List.Forall₂ (fun t t' => t'.Imitates place t) ts (ts.map f) := by
  rw [List.forall₂_map_right_iff, List.forall₂_same]
  exact fun t _ => hf t

/-- A kept state does what it did before. -/
theorem movedState_imitates {kept : List Nat} (i : Nat) {state : State}
    (h : ∀ t ∈ state.successors, t ∈ kept) :
    (movedState kept i state).Imitates (fun s => kept.idxOf s) state := by
  have htransitions : (movedState kept i state).transitions =
      state.transitions.map fun t => { t with source := i, target := kept.idxOf t.target } :=
    filterMap_moved i fun t ht => h _ (Contraction.mem_successors_target ht)
  have hedges (t : Transition) : Transition.Imitates (fun s => kept.idxOf s)
      { t with source := i, target := kept.idxOf t.target } t :=
    ⟨rfl, rfl⟩
  refine ⟨rfl, rfl, rfl, ?_, ?_, fun _ => ?_⟩
  · change state.action.map _ = state.action.map _
    refine Option.map_congr fun action haction => mapBody_congr fun body hbody => ?_
    have hmem : body ∈ kept := by
      refine h body (Contraction.mem_successors_body ?_)
      rw [haction]
      exact hbody
    rw [idxOf?_of_mem hmem, Option.getD_some]
  · rw [htransitions]
    exact thinned_map hedges _ _
  · rw [htransitions]
    exact forall₂_map hedges _

/-- To keep closed states is a contraction that renames them. -/
def retainContraction (hkeep : a.KeepsAll keep) : Contraction a (a.retain keep) where
  Met s := s ∈ a.keptStates keep
  place s := (a.keptStates keep).idxOf s
  forward _ := none
  rank _ := 0
  groupCount_eq := by
    refine groupCount_congr (fun state' hstate' g hg => ?_) fun state hstate g hg => ?_
    · obtain ⟨i, hi⟩ := List.mem_iff_getElem?.mp hstate'
      obtain ⟨s, state, _, hstate, rfl⟩ := getElem?_retain.mp (Array.getElem?_toList ▸ hi)
      exact ⟨state, (Array.mem_of_getElem? hstate).val, hg⟩
    · obtain ⟨s, hs⟩ := List.mem_iff_getElem?.mp hstate
      rw [Array.getElem?_toList] at hs
      have hmem := hkeep.grouped s state hs (by simp [hg])
      have hmoved := getElem?_retain.mpr ⟨s, state, getElem?_idxOf hmem, hs, rfl⟩
      exact ⟨_, (Array.mem_of_getElem? hmoved).val, hg⟩
  met s hs := by
    have hlt : s < a.states.size := (mem_keptStates.mp hs).1
    exact ⟨a.states[s], Array.getElem?_eq_getElem hlt,
      hkeep.closed s hs _ (Array.getElem?_eq_getElem hlt)⟩
  kept s state hs _ hstate :=
    ⟨_, getElem?_retain.mpr ⟨s, state, getElem?_idxOf hs, hstate, rfl⟩,
      movedState_imitates _ (hkeep.closed s hs state hstate)⟩
  skipped _ _ _ _ h := nomatch h
  place_forward _ _ _ h := nomatch h
  rank_forward _ _ _ h := nomatch h
  injective s t hs ht _ _ heq := by
    have hst : some s = some t := by rw [← getElem?_idxOf hs, heq, getElem?_idxOf ht]
    exact Option.some.inj hst

theorem idxOf_lt {s : Nat} (hs : s ∈ a.keptStates keep) :
    (a.keptStates keep).idxOf s < (a.retain keep).stateCount := by
  rw [stateCount_retain]
  exact List.idxOf_lt_length_of_mem hs

/-- What is left of a well-formed automaton is well formed, if the bodies of kept states are kept
too. -/
theorem WellFormed.retain (hwf : a.WellFormed)
    (hbodies : ∀ s ∈ a.keptStates keep, ∀ state, a.states[s]? = some state →
      ∀ body, state.action.bind Action.body? = some body → body ∈ a.keptStates keep) :
    (a.retain keep).WellFormed := by
  have hplace {s i : Nat} (h : (a.keptStates keep).idxOf? s = some i) :
      i < (a.retain keep).stateCount := by
    obtain ⟨hs, rfl⟩ := idxOf?_eq_some_iff.mp h
    exact idxOf_lt hs
  have hinitial : ∀ i, (a.retain keep).initial = some i → i < (a.retain keep).stateCount := by
    intro i hi
    rw [retain_eq] at hi
    obtain ⟨s, _, hs⟩ := Option.bind_eq_some_iff.mp hi
    exact hplace hs
  refine ⟨hinitial, fun i hi => ?_, fun i state' hstate' => ?_, ?_, fun hdfa s' hs' t ht => ?_⟩
  · rw [retain_eq] at hi
    rcases Option.or_eq_some_iff.mp hi with hi | ⟨_, hi⟩
    · obtain ⟨s, _, hs⟩ := Option.bind_eq_some_iff.mp hi
      exact hplace hs
    · exact hinitial i (by rw [retain_eq]; exact hi)
  · obtain ⟨s, state, hs, hstate, rfl⟩ := getElem?_retain.mp hstate'
    refine ⟨fun t ht => ?_, fun t ht => ?_, fun body hbody => ?_⟩
    · obtain ⟨e, _, _, rfl⟩ := mem_movedState_iff.mp ht
      rfl
    · obtain ⟨e, _, hkept, rfl⟩ := mem_movedState_iff.mp ht
      exact idxOf_lt hkept
    · obtain ⟨action, haction, hbody⟩ := Option.bind_eq_some_iff.mp hbody
      obtain ⟨before, hbefore, rfl⟩ := Option.map_eq_some_iff.mp haction
      rw [body?_mapBody] at hbody
      obtain ⟨place, hplace, rfl⟩ := Option.map_eq_some_iff.mp hbody
      have hmem := hbodies s (List.mem_of_getElem? hs) state hstate place (by
        rw [hbefore]
        exact hplace)
      rw [idxOf?_of_mem hmem]
      exact idxOf_lt hmem
  · rw [ids_retain]
    refine List.Nodup.map_on (fun s hs t ht heq => ?_) nodup_keptStates
    have hslt : s < a.states.size := (mem_keptStates.mp hs).1
    have htlt : t < a.states.size := (mem_keptStates.mp ht).1
    simp only [Array.getElem?_eq_getElem hslt, Array.getElem?_eq_getElem htlt,
      Option.getD_some] at heq
    have hids := hwf.distinct
    rw [List.nodup_iff_getElem?_ne_getElem?] at hids
    by_contra hne
    rcases Nat.lt_or_gt_of_ne hne with hlt | hlt
    · exact hids s t hlt (by simpa using htlt) (by simp [hslt, htlt, heq])
    · exact hids t s hlt (by simpa using hslt) (by simp [hslt, htlt, heq])
  · rw [retain_eq] at hdfa
    obtain ⟨i, hi⟩ := Array.mem_iff_getElem?.mp hs'
    obtain ⟨s, state, _, hstate, rfl⟩ := getElem?_retain.mp hi
    obtain ⟨e, he, _, rfl⟩ := mem_movedState_iff.mp ht
    exact hwf.takes_input hdfa state (Array.mem_of_getElem? hstate) e he

/-! The passes that remove states. -/

theorem Trim.retain {i : Nat} (h : a.Trim i) (hkeep : a.KeepsAll keep)
    (hi : i ∈ a.keptStates keep) : (a.retain keep).Trim ((a.keptStates keep).idxOf i) := by
  have hinitial : (a.retain keep).initial = some ((a.keptStates keep).idxOf i) := by
    simp [retain_eq, h.initial_eq, idxOf?_of_mem hi]
  refine ⟨h.wellFormed.retain hkeep.bodies, ?_, hinitial, fun j hj => ?_,
    fun j state' hstate' hgroup => ?_⟩
  · rw [retain_eq]
    exact h.kind_eq
  · rw [stateCount_retain] at hj
    have hs := List.getElem_mem hj
    have hlive := (retainContraction hkeep).isLive_place hs (h.live _ (mem_keptStates.mp hs).1)
    rwa [show (retainContraction hkeep).place _ = j from nodup_keptStates.idxOf_getElem j hj]
      at hlive
  · obtain ⟨s, state, hs, hstate, rfl⟩ := getElem?_retain.mp hstate'
    have hreached := ((retainContraction hkeep).isReached_place h.initial_eq hi hinitial
      (h.grouped s state hstate hgroup)).2
    obtain ⟨hj, rfl⟩ := List.getElem?_eq_some_iff.mp hs
    rwa [show (retainContraction hkeep).place _ = j from nodup_keptStates.idxOf_getElem j hj]
      at hreached

/-- Keeping the states that are named in a list. -/
theorem mem_keptStates_mark {kept : List Nat} {s : Nat} :
    s ∈ a.keptStates (Graph.mark a.stateCount kept) ↔ s < a.stateCount ∧ s ∈ kept := by
  rw [mem_keptStates]
  refine and_congr_right fun hs => ?_
  rw [Graph.getElem?_mark kept hs, Option.getD_some, decide_eq_true_iff]

theorem Trim.mem_keptStates_reachable {i : Nat} (h : a.Trim i) {s : Nat} :
    s ∈ a.keptStates (Graph.mark a.stateCount a.reachable) ↔ s < a.stateCount ∧ a.IsReached s := by
  rw [mem_keptStates_mark, mem_reachable_iff h.wellFormed]

theorem Trim.keepsAll_reachable {i : Nat} (h : a.Trim i) :
    a.KeepsAll (Graph.mark a.stateCount a.reachable) := by
  refine ⟨fun s hs state hstate t ht => ?_, fun s state hstate hgroup => ?_⟩
  · obtain ⟨_, j, hj, hpath⟩ := h.mem_keptStates_reachable.mp hs
    refine h.mem_keptStates_reachable.mpr
      ⟨h.wellFormed.successor_lt hstate ht, j, hj, hpath.tail ?_⟩
    rwa [successors_eq hstate]
  · exact h.mem_keptStates_reachable.mpr
      ⟨(Array.getElem?_eq_some_iff.mp hstate).1, h.grouped s state hstate hgroup⟩

theorem Trim.initial_mem_reachable {i : Nat} (h : a.Trim i) :
    i ∈ a.keptStates (Graph.mark a.stateCount a.reachable) :=
  h.mem_keptStates_reachable.mpr
    ⟨h.wellFormed.initial_lt i h.initial_eq, i, h.initial_eq, .refl⟩

/-- To remove what cannot be reached changes nothing that is found. -/
theorem Trim.removeUnreachable {i : Nat} (h : a.Trim i) :
    ∃ j, a.removeUnreachable.2.Trim j ∧ a.FindsAlike i a.removeUnreachable.2 j := by
  unfold Automaton.removeUnreachable retainOnly
  dsimp only
  split
  · exact ⟨i, h, fun _ _ _ hgives => hgives⟩
  · have hi := h.initial_mem_reachable
    exact ⟨_, h.retain h.keepsAll_reachable hi, fun _ _ _ hgives =>
      (retainContraction h.keepsAll_reachable).gives_firstWay hi hgives⟩

/-- A table that names every state. -/
theorem all_mark {size : Nat} {nodes : List Nat} (h : ∀ s < size, s ∈ nodes) :
    (Graph.mark size nodes).all id = true := by
  refine Array.all_eq_true.mpr fun s hs => ?_
  have hsize : s < size := by rwa [Graph.size_mark] at hs
  have hmarked := Graph.getElem?_mark nodes hsize
  rw [Array.getElem?_eq_getElem hs, Option.some.injEq] at hmarked
  simp [hmarked, h s hsize]

/-- A state that leads to an end is among those that are found backward from the ends, whatever else
the search starts from. -/
theorem WellFormed.mem_leadingTo (hwf : a.WellFormed) {s : Nat} {more : List Nat}
    (hs : s < a.stateCount) (h : a.IsLive s ∨ s ∈ more) :
    s ∈ Graph.depthFirst (fun s => (Graph.predecessors a.stateCount a.targets)[s]?.getD [])
      (Graph.unseen a.stateCount)
      (((List.range a.stateCount).filter fun s => a.states[s]?.any isFinal) ++ more) := by
  have hedge {u v : Nat} (huv : v ∈ a.targets u) : v < a.stateCount := by
    cases hstate : a.states[u]? with
    | none => simp [targets, hstate] at huv
    | some state =>
      have hsuccessor := mem_targets_mem_successors huv
      rw [successors_eq hstate] at hsuccessor
      exact hwf.successor_lt hstate hsuccessor
  have hmarked {e : Nat} (hlt : e < a.stateCount)
      (hend : e ∈ ((List.range a.stateCount).filter fun s => a.states[s]?.any isFinal) ++ more)
      (hpath : Relation.ReflTransGen (fun u v => v ∈ a.targets u) s e) :=
    (Graph.getElem?_leadingTo hs).mpr ⟨e, hend, hlt,
      Relation.ReflTransGen.mono (fun u v huv => ⟨huv, hedge huv⟩) _ _ hpath⟩
  suffices hall : (Graph.leadingTo a.stateCount a.targets _)[s]?.getD false = true by
    rwa [Graph.leadingTo, Graph.getElem?_mark _ hs, Option.getD_some, decide_eq_true_iff] at hall
  rcases h with ⟨e, state, hpath, hstate, hfinal⟩ | hs'
  · have hlt : e < a.stateCount := (Array.getElem?_eq_some_iff.mp hstate).1
    exact hmarked hlt (by simp [hlt, hstate, hfinal]) hpath
  · exact hmarked hs (List.mem_append_right _ hs') .refl

/-- Of the states that are kept, the bodies are kept too. -/
def KeepsBodies (a : Automaton) (kept : List Nat) : Prop :=
  ∀ s state, a.states[s]? = some state →
    ∀ body, state.action.bind Action.body? = some body → s ∈ kept → body ∈ kept

theorem WellFormed.keepsBodies_reachable (hwf : a.WellFormed) : a.KeepsBodies a.reachable := by
  intro s state hstate body hbody hs
  obtain ⟨i, hi, hpath⟩ := (mem_reachable_iff hwf).mp hs
  apply (mem_reachable_iff hwf).mpr
  refine ⟨i, hi, hpath.tail ?_⟩
  rw [successors_eq hstate]
  exact Contraction.mem_successors_body hbody

/-- The states that lead to an end or are part of a body, and the first one. -/
def livePart (a : Automaton) : List Nat :=
  a.initial.toList ++
    Graph.depthFirst (fun s => (Graph.predecessors a.stateCount a.targets)[s]?.getD [])
      (Graph.unseen a.stateCount)
      (((List.range a.stateCount).filter fun s => a.states[s]?.any isFinal) ++
        Graph.depthFirst a.targets (Graph.unseen a.stateCount)
          (a.states.toList.filterMap fun s => s.action.bind Action.body?))

theorem removeDead_eq (a : Automaton) : a.removeDead = a.retainOnly a.livePart := rfl

theorem WellFormed.mem_livePart (hwf : a.WellFormed) {s : Nat} (hs : s < a.stateCount)
    (h : a.IsLive s) : s ∈ a.livePart :=
  List.mem_append_right _ (hwf.mem_leadingTo hs (.inl h))

theorem WellFormed.keepsBodies_livePart (hwf : a.WellFormed) : a.KeepsBodies a.livePart := by
  intro s state hstate body hbody _
  have hlt := (hwf.fits s state hstate).body_lt body hbody
  apply List.mem_append_right
  apply hwf.mem_leadingTo hlt
  refine .inr ((Graph.mem_depthFirst_unseen _ _ _).mpr ⟨body, ?_, hlt, .refl⟩)
  exact List.mem_filterMap.mpr ⟨state, (Array.mem_of_getElem? hstate).val, hbody⟩

/-- There is nothing to remove where every state leads to an end. -/
theorem Trim.removeDead {i : Nat} (h : a.Trim i) : a.removeDead = (false, a) := by
  rw [removeDead_eq, retainOnly]
  exact if_pos (all_mark fun s hs => h.wellFormed.mem_livePart hs (h.live s hs))

end RegexEngine.Automaton
