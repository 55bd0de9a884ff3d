import RegexEngine.Proofs.Automaton.Shortcuts
import RegexEngine.Proofs.Search.Stages

/-!
Charts of automata. A chart says at which stage of a capture group each state is entered. It fits an
automaton if every state turns the stage at which it is entered into one from which all states that
it leads to can be entered, and if bodies are passed as they may be. Then ways progress as the chart
says. The passes that simplify automata keep charts: they rename states, drop transitions, or lead
them past states that do nothing.
-/

namespace RegexEngine

/-! States. -/

namespace State

/-- True for states whose body is that of an atomic group. -/
def isAtomic (s : State) : Bool :=
  match s.action with
  | some (.atomic _) => true
  | _ => false

/-- What a state makes of the stage at which it is entered. -/
inductive Turns (group : Nat) (chart : Nat → Stage) (s : State) : Stage → Stage → Prop
  | passes {y z : Stage} : s.groupIndex ≠ some group → s.asks? = none → y.Next z →
      Turns group chart s y z
  | opens : s.groupIndex = some group → s.opensGroup = true → s.closesGroup = false →
      s.asks? = none → Turns group chart s .outside .within
  | closes {z : Stage} : s.groupIndex = some group → s.opensGroup = false →
      s.closesGroup = true → s.asks? = none → Stage.within.Next z → Turns group chart s .within z
  | asks {y z : Stage} {body : Body} : s.groupIndex ≠ some group → s.accepting = false →
      s.asks? = some body → Stage.Through s.isAtomic y (chart body.start) z →
        Turns group chart s y z

/-- A state fits a chart at its place. -/
def Charted (group : Nat) (chart : Nat → Stage) (index : Nat) (s : State) : Prop :=
  ∃ z, s.Turns group chart (chart index) z ∧ ∀ t ∈ s.transitions, z.Next (chart t.target)

variable {group : Nat} {chart : Nat → Stage} {s : State} {y z : Stage}

theorem sameAt_capture (hgroup : 0 < group) (hs : s.groupIndex ≠ some group) (position : Nat)
    (slots : Slots) : Slots.SameAt group slots (s.capture position slots) := by
  unfold capture
  split
  · rename_i other hother
    have hne : other + 1 ≠ group := by
      rintro rfl
      exact hs hother
    have hopened : Slots.SameAt group slots
        (if s.opensGroup then slots.openAt (other + 1) position else slots) := by
      split
      · exact Slots.sameAt_openAt hgroup (Nat.succ_pos _) hne
      · exact .refl group slots
    dsimp only
    split
    · exact hopened.trans (Slots.sameAt_closeAt hgroup (Nat.succ_pos _) hne)
    · exact hopened
  · exact .refl group slots

theorem capture_of_opens (hgroup : 0 < group) (hs : s.groupIndex = some group)
    (hopens : s.opensGroup = true) (hcloses : s.closesGroup = false) (position : Nat)
    (slots : Slots) : s.capture position slots = slots.openAt group position := by
  obtain ⟨g, rfl⟩ := Nat.exists_eq_succ_of_ne_zero (Nat.ne_of_gt hgroup)
  simp [capture, hs, hopens, hcloses]

theorem capture_of_closes (hgroup : 0 < group) (hs : s.groupIndex = some group)
    (hopens : s.opensGroup = false) (hcloses : s.closesGroup = true) (position : Nat)
    (slots : Slots) : s.capture position slots = slots.closeAt group position := by
  obtain ⟨g, rfl⟩ := Nat.exists_eq_succ_of_ne_zero (Nat.ne_of_gt hgroup)
  simp [capture, hs, hopens, hcloses]

/-- A way that enters a state and stays there progresses. -/
theorem Turns.captured {path : Path} (h : s.Turns group chart (chart path.place) z)
    (hgroup : 0 < group) {next : Path} (hplace : chart next.place = chart path.place)
    (hle : path.position ≤ next.position)
    (hslots : next.slots = s.capture path.position path.slots) :
    path.Progresses group chart next := by
  generalize hpath : chart path.place = y at h
  cases h with
  | passes hindex _ _ =>
    exact .of_sameAt hle (hplace ▸ .same _) (hslots ▸ sameAt_capture hgroup hindex _ _)
  | asks hindex _ _ _ =>
    exact .of_sameAt hle (hplace ▸ .same _) (hslots ▸ sameAt_capture hgroup hindex _ _)
  | opens hindex hopens hcloses _ =>
    apply Path.Progresses.of_openAt hle hpath
    · exact .inl (hplace.trans hpath)
    · rw [hslots, capture_of_opens hgroup hindex hopens hcloses]
  | closes hindex hopens hcloses _ _ =>
    apply Path.Progresses.of_closeAt hle hpath
    · rw [hplace, hpath]
      exact .same _
    · rw [hslots, capture_of_closes hgroup hindex hopens hcloses]

/-- A way that goes on from a state without a body progresses. -/
theorem Turns.across {path : Path} (h : s.Turns group chart (chart path.place) z)
    (hgroup : 0 < group) (hasks : s.asks? = none) {next : Path} (hnext : z.Next (chart next.place))
    (hle : path.position ≤ next.position)
    (hslots : next.slots = s.capture path.position path.slots) :
    path.Progresses group chart next := by
  generalize hpath : chart path.place = y at h
  cases h with
  | passes hindex _ hturn =>
    apply Path.Progresses.of_sameAt hle
    · rw [hpath]
      exact hturn.trans hnext
    · rw [hslots]
      exact sameAt_capture hgroup hindex _ _
  | opens hindex hopens hcloses _ =>
    apply Path.Progresses.of_openAt hle hpath (hnext.isLevel (.inr rfl))
    rw [hslots, capture_of_opens hgroup hindex hopens hcloses]
  | closes hindex hopens hcloses _ hturn =>
    apply Path.Progresses.of_closeAt hle hpath (hturn.trans hnext)
    rw [hslots, capture_of_closes hgroup hindex hopens hcloses]
  | asks _ _ hbody _ =>
    rw [hasks] at hbody
    cases hbody

theorem Turns.of_asks {body : Body} (h : s.Turns group chart y z) (hbody : s.asks? = some body) :
    s.accepting = false ∧ Stage.Through s.isAtomic y (chart body.start) z := by
  cases h with
  | passes _ hasks _ => cases hasks.symm.trans hbody
  | opens _ _ _ hasks => cases hasks.symm.trans hbody
  | closes _ _ _ hasks _ => cases hasks.symm.trans hbody
  | asks _ haccepting hasks hthrough =>
    cases hasks.symm.trans hbody
    exact ⟨haccepting, hthrough⟩

theorem isAtomic_of_look {kind : LookKind} {body : Nat}
    (h : s.action = some (.look kind body) ∨ s.action = some (.branch (.look kind body))) :
    s.isAtomic = false := by
  rcases h with h | h
  · simp only [isAtomic, h]
  · simp only [isAtomic, h]

theorem Turns.next_of_plain (h : s.Turns group chart y z) (hplain : s.isPlain = true) :
    y.Next z := by
  simp only [isPlain, Bool.and_eq_true, Option.isNone_iff_eq_none] at hplain
  cases h with
  | passes _ _ hnext => exact hnext
  | opens hindex _ _ _ => cases hplain.2.symm.trans hindex
  | closes hindex _ _ _ _ => cases hplain.2.symm.trans hindex
  | asks _ _ hbody _ =>
    simp only [asks?, hplain.1.2] at hbody
    cases hbody

/-- What a state asks for whose body is moved. -/
theorem asks?_of_mapBody {s' : State} {place : Nat → Nat}
    (h : s'.action = s.action.map (·.mapBody place)) :
    s'.asks? = s.asks?.map (fun body => ⟨place body.start, body.behind⟩) ∧
      s'.isAtomic = s.isAtomic := by
  unfold asks? isAtomic
  rw [h]
  cases s.action with
  | none => exact ⟨rfl, rfl⟩
  | some action =>
    cases action with
    | branch condition => cases condition <;> exact ⟨rfl, rfl⟩
    | _ => exact ⟨rfl, rfl⟩

theorem body?_of_asks? {body : Body} (h : s.asks? = some body) :
    s.action.bind Action.body? = some body.start := by
  unfold asks? at h
  split at h
  · rename_i haction
    cases h
    rw [haction]
    rfl
  · rename_i haction
    cases h
    rw [haction]
    rfl
  · rename_i haction
    cases h
    rw [haction]
    rfl
  · cases h

theorem mem_successors_of_asks? {body : Body} (h : s.asks? = some body) :
    body.start ∈ s.successors :=
  Contraction.mem_successors_body (body?_of_asks? h)

theorem exists_imitated {place : Nat → Nat}
    {before ts ts' : List Transition} (h : Thinned place before ts ts') :
    ∀ t' ∈ ts', ∃ t ∈ ts, t'.Imitates place t := by
  induction h with
  | nil => exact fun _ h => nomatch h
  | keep himitates _ ih =>
    intro t' ht'
    rcases List.mem_cons.mp ht' with rfl | ht'
    · exact ⟨_, List.mem_cons_self, himitates⟩
    · obtain ⟨t, ht, h⟩ := ih t' ht'
      exact ⟨t, List.mem_cons_of_mem _ ht, h⟩
  | drop _ _ _ ih =>
    intro t' ht'
    obtain ⟨t, ht, h⟩ := ih t' ht'
    exact ⟨t, List.mem_cons_of_mem _ ht, h⟩

/-- A state that does what another one does fits a chart where that one does, if the places that it
leads to are entered at the same stages or at stages that come next. -/
theorem Charted.imitated {index index' : Nat} (h : s.Charted group chart index) {s' : State}
    {chart' : Nat → Stage} {place : Nat → Nat} (himitates : s'.Imitates place s)
    (hindex : chart' index' = chart index)
    (hplaces : ∀ t ∈ s.successors, (chart t).Next (chart' (place t))) :
    s'.Charted group chart' index' := by
  obtain ⟨z, hturns, hleads⟩ := h
  obtain ⟨hasks, hatomic⟩ := asks?_of_mapBody himitates.action_eq
  refine ⟨z, ?_, fun t' ht' => ?_⟩
  · rw [hindex]
    generalize chart index = y at hturns
    have hopens : s'.opensGroup = s.opensGroup := by rw [opensGroup, himitates.marks_eq]; rfl
    have hcloses : s'.closesGroup = s.closesGroup := by rw [closesGroup, himitates.marks_eq]; rfl
    cases hturns with
    | passes hgroup hnone hnext =>
      exact .passes (himitates.groupIndex_eq ▸ hgroup) (by rw [hasks, hnone]; rfl) hnext
    | opens hgroup hopen hclose hnone =>
      exact .opens (himitates.groupIndex_eq ▸ hgroup) (hopens ▸ hopen) (hcloses ▸ hclose)
        (by rw [hasks, hnone]; rfl)
    | closes hgroup hopen hclose hnone hnext =>
      exact .closes (himitates.groupIndex_eq ▸ hgroup) (hopens ▸ hopen) (hcloses ▸ hclose)
        (by rw [hasks, hnone]; rfl) hnext
    | @asks _ _ body hgroup haccepting hbody hthrough =>
      have hbody' : s'.asks? = some ⟨place body.start, body.behind⟩ := by
        rw [hasks, hbody]
        rfl
      refine .asks (himitates.groupIndex_eq ▸ hgroup) (himitates.accepting_eq ▸ haccepting) hbody'
        ?_
      rw [hatomic]
      exact hthrough.next (hplaces _ (mem_successors_of_asks? hbody))
  · obtain ⟨t, ht, hsame⟩ := exists_imitated himitates.thinned t' ht'
    rw [hsame.target_eq]
    exact (hleads t ht).trans (hplaces _ (Contraction.mem_successors_target ht))

end State

/-! Automata. -/

namespace Automaton

/-- A chart fits all states of an automaton. -/
def Charted (group : Nat) (chart : Nat → Stage) (a : Automaton) : Prop :=
  ∀ (index : Nat) (s : State), a.states[index]? = some s → s.Charted group chart index

variable {group : Nat} {chart : Nat → Stage} {a : Automaton} {input : Array Char}

/-- Ways through an automaton progress as a chart says that fits it. -/
theorem Charted.respects (h : a.Charted group chart) (hgroup : 0 < group) (input : Array Char) :
    a.code.Respects input (Path.Progresses group chart) := by
  apply respects_of_states a (Path.chains_progresses group chart)
  · intro path s hstate
    obtain ⟨z, hturns, _⟩ := h path.place s hstate
    exact hturns.captured hgroup rfl (Nat.le_refl _) rfl
  · intro path s hstate hasks
    obtain ⟨z, hturns, hleads⟩ := h path.place s hstate
    constructor
    · intro t ht position trail hle _ _
      exact hturns.across hgroup hasks (hleads t ht) hle rfl
    · intro _ position hle _
      have hends : path.Progresses group chart { s.captured path with position := position } :=
        hturns.captured hgroup rfl hle rfl
      exact ⟨_, hends, rfl, rfl⟩
  · intro path s hstate body hbody tried found htried hfound next hafter
    obtain ⟨z, hturns, hleads⟩ := h path.place s hstate
    obtain ⟨haccepting, hthrough⟩ := hturns.of_asks hbody
    change Stage.Through _ (chart (s.captured path).place) _ z at hthrough
    constructor
    · intro t ht position trail hle _ _
      cases hafter with
      | looked haction hlooked =>
        rw [State.isAtomic_of_look haction] at hthrough
        exact .of_looked _ hthrough hfound hlooked
          ((State.position_of_looked hlooked) ▸ hle) rfl (hleads t ht)
      | refused haction _ =>
        rw [State.isAtomic_of_look (.inr haction)] at hthrough
        exact .of_sameAt hle (hthrough.next_of_look.trans (hleads t ht)) (.refl group _)
      | @atomic _ f haction hf =>
        have hahead : body.behind = false := by
          simp only [State.asks?, haction, Option.some.injEq] at hbody
          rw [← hbody]
        have htried := htried.eq hahead
        obtain ⟨_, hlast, hstop, _⟩ := hfound f hf
        have hstopped : tried ≤ f.stop := hstop ▸ hlast.position_le
        have hle : f.stop ≤ position := hle
        refine .of_body hthrough (fun _ => ⟨htried, hle⟩) (hfound f hf) ?_ rfl (hleads t ht)
        exact Nat.le_trans (htried ▸ hstopped) hle
    · intro haccepts
      rw [haccepting] at haccepts
      cases haccepts

/-! Passes. -/

/-- The chart for an automaton fits it, and lets searches start at a stage. -/
def StartsAt (group : Nat) (z : Stage) (a : Automaton) : Prop :=
  ∃ chart i, a.Charted group chart ∧ a.initial = some i ∧ z.Next (chart i)

variable {z : Stage}

theorem StartsAt.retain {keep : Array Bool} {i : Nat} (h : a.StartsAt group z)
    (hkeep : a.KeepsAll keep) (hinitial : a.initial = some i) (hi : i ∈ a.keptStates keep) :
    (a.retain keep).StartsAt group z := by
  obtain ⟨chart, j, hchart, hj, hstart⟩ := h
  cases hinitial.symm.trans hj
  have hmoved {s : Nat} (hs : s ∈ a.keptStates keep) :
      (a.keptStates keep)[(a.keptStates keep).idxOf s]?.elim Stage.behind chart = chart s := by
    rw [getElem?_idxOf hs]
    rfl
  refine ⟨fun i => (a.keptStates keep)[i]?.elim .behind chart, (a.keptStates keep).idxOf i, ?_, ?_,
    ?_⟩
  · intro index s' hs'
    obtain ⟨s, state, hs, hstate, rfl⟩ := getElem?_retain.mp hs'
    have hmem := List.mem_of_getElem? hs
    have hsuccessors := hkeep.closed s hmem state hstate
    apply (hchart s state hstate).imitated (movedState_imitates index hsuccessors)
    · rw [hs]
      rfl
    · intro t ht
      rw [hmoved (hsuccessors t ht)]
      exact .same _
  · rw [retain_eq, hinitial]
    exact idxOf?_of_mem hi
  · dsimp only
    rw [hmoved hi]
    exact hstart

/-- A state that does nothing is passed without a change of stage. -/
theorem Charted.next_of_endsAfter (h : a.Charted group chart) {k s e : Nat}
    (hends : a.EndsAfter k s e) : (chart s).Next (chart e) := by
  induction hends with
  | here _ => exact .same _
  | step hnext _ ih =>
    obtain ⟨state, hstate, hplain, t, htransitions, _, rfl⟩ := leadsOnTo?_eq_some hnext
    obtain ⟨z, hturns, hleads⟩ := h _ state hstate
    have hz := hleads t (htransitions ▸ List.mem_singleton.mpr rfl)
    exact ((hturns.next_of_plain hplain).trans hz).trans ih

theorem Charted.next_resolved (h : a.Charted group chart) {s : Nat} (hs : s < a.stateCount) :
    (chart s).Next (chart (a.resolved s)) := by
  rw [resolved_eq hs]
  rcases resolveForward_cases s (a.stateCount + 1) s with heq | ⟨k, _, hends⟩
  · rw [heq]
    exact .same _
  · exact h.next_of_endsAfter hends

theorem Charted.mapStates (h : a.Charted group chart) {f : State → State} {place : Nat → Nat}
    (hf : ∀ s, (f s).Imitates place s)
    (hplaces : ∀ s ∈ a.states, ∀ t ∈ s.successors, (chart t).Next (chart (place t)))
    (initial current : Option Nat) : (a.mapStates f initial current).Charted group chart := by
  intro index s' hs'
  rw [getElem?_mapStates] at hs'
  obtain ⟨s, hs, rfl⟩ := Option.map_eq_some_iff.mp hs'
  exact (h index s hs).imitated (hf s) rfl (hplaces s (Array.mem_of_getElem? hs))

theorem StartsAt.mergeTransitions (h : a.StartsAt group z) :
    a.mergeTransitions.2.StartsAt group z := by
  obtain ⟨chart, i, hchart, hi, hstart⟩ := h
  refine ⟨chart, i, ?_, hi, hstart⟩
  exact hchart.mapStates merged_imitates (fun _ _ _ _ => .same _) a.initial a.current

theorem StartsAt.bypassForwarders (h : a.StartsAt group z) (hwf : a.WellFormed) :
    a.bypassForwarders.2.StartsAt group z := by
  obtain ⟨chart, i, hchart, hi, hstart⟩ := h
  obtain ⟨current, heq, _⟩ := bypassForwarders_eq hwf hi
  rw [heq]
  refine ⟨chart, a.resolved i, ?_, rfl, ?_⟩
  · apply hchart.mapStates bypassed_imitates
    intro s hs t ht
    obtain ⟨index, hindex⟩ := List.mem_iff_getElem?.mp hs.val
    rw [Array.getElem?_toList] at hindex
    exact hchart.next_resolved (hwf.successor_lt hindex ht)
  · exact hstart.trans (hchart.next_resolved (hwf.initial_lt i hi))

theorem Trim.removeUnreachable_startsAt {i : Nat} (htrim : a.Trim i) (h : a.StartsAt group z) :
    a.removeUnreachable.2.StartsAt group z := by
  unfold Automaton.removeUnreachable retainOnly
  dsimp only
  split
  · exact h
  · exact h.retain htrim.keepsAll_reachable htrim.initial_eq htrim.initial_mem_reachable

theorem Trim.simplifyFully_startsAt (fuel : Nat) {i : Nat} (htrim : a.Trim i)
    (h : a.StartsAt group z) : (Automaton.simplifyFully fuel a).StartsAt group z := by
  induction fuel generalizing a i with
  | zero => exact h
  | succ fuel ih =>
    obtain ⟨j, htrim₁, _⟩ := htrim.removeUnreachable
    obtain ⟨k, htrim', _⟩ := htrim.simplifyOnce
    have honce : a.simplifyOnce.2.StartsAt group z := by
      have hmerged := (htrim.removeUnreachable_startsAt h).mergeTransitions
      have heq : a.simplifyOnce.2 =
          a.removeUnreachable.2.mergeTransitions.2.bypassForwarders.2 := by
        unfold Automaton.simplifyOnce
        simp only [htrim₁.removeDead]
      rw [heq]
      exact hmerged.bypassForwarders htrim₁.mergeTransitions.1.wellFormed
    unfold Automaton.simplifyFully
    split
    · rename_i b heq
      rw [heq] at honce htrim'
      exact ih htrim' honce
    · rename_i b heq
      rw [heq] at honce
      exact honce

end Automaton

end RegexEngine
