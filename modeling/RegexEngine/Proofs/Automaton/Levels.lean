import RegexEngine.Proofs.Automaton.Bare
import RegexEngine.Proofs.Automaton.Compiled
import RegexEngine.Proofs.Automaton.Language

/-!
How deeply bodies are nested in an automaton. A level for each state says how many searches may wait
for bodies at most while the state is searched for: transitions never lead to a higher level, and a
body is on a lower level than the state that asks for it. The passes that simplify automata keep the
levels: they rename states, drop transitions, or lead them past states that only lead on.

While an automaton is built, a list says of each of its states how many searches may wait for bodies
there at most. States are added at the end, so what the list says of a state stays. The fragment of
an expression is on any level that leaves room for the bodies in the expression, each of which is
built one level below.
-/

namespace RegexEngine

/-- A state at a place is on a level that fits those of the states that it leads to. -/
structure State.Nests (level : Nat → Nat) (place : Nat) (s : State) : Prop where
  target_le : ∀ t ∈ s.transitions, level t.target ≤ level place
  body_lt : ∀ body, s.asks? = some body → level body.start < level place

/-- A state that does what another one does is on its level, if what it leads to is on no higher
level than before. -/
theorem State.Nests.imitated {level level' : Nat → Nat} {index index' : Nat} {s s' : State}
    {place : Nat → Nat} (h : s.Nests level index) (himitates : s'.Imitates place s)
    (hindex : level' index' = level index)
    (hplaces : ∀ t ∈ s.successors, level' (place t) ≤ level t) : s'.Nests level' index' := by
  constructor
  · intro t' ht'
    obtain ⟨t, ht, hsame⟩ := exists_imitated himitates.thinned t' ht'
    rw [hsame.target_eq, hindex]
    exact (hplaces _ (Contraction.mem_successors_target ht)).trans (h.target_le t ht)
  · intro body' hbody'
    rw [(asks?_of_mapBody himitates.action_eq).1] at hbody'
    obtain ⟨body, hbody, rfl⟩ := Option.map_eq_some_iff.mp hbody'
    rw [hindex]
    exact (hplaces _ (mem_successors_of_asks? hbody)).trans_lt (h.body_lt body hbody)

namespace Automaton

variable {a : Automaton} {level : Nat → Nat} {most : Nat}

/-- All states are on levels that fit. -/
def Nests (level : Nat → Nat) (a : Automaton) : Prop :=
  ∀ (place : Nat) (s : State), a.states[place]? = some s → s.Nests level place

/-- From the initial state on, bodies are nested at most so deeply. -/
def NestsWithin (most : Nat) (a : Automaton) : Prop :=
  ∃ level, a.Nests level ∧ ∀ i, a.initial = some i → level i ≤ most

/-- Nothing is nested where there are no actions. -/
theorem IsBare.nestsWithin (h : a.IsBare) (most : Nat) : a.NestsWithin most := by
  refine ⟨fun _ => 0, fun place s hs => ⟨fun _ _ => Nat.le_refl 0, ?_⟩, fun _ _ => Nat.zero_le most⟩
  intro body hbody
  have haction := (h s (Array.mem_of_getElem? hs)).2
  simp [State.asks?, haction] at hbody

/-! Passes. -/

/-- A kept state is on the level that it was on. -/
theorem nests_movedState {kept : List Nat} {index place : Nat} {s : State} (h : s.Nests level place)
    (hplace : kept[index]? = some place)
    (hbody : ∀ body, s.action.bind Action.body? = some body → body ∈ kept) :
    (movedState kept index s).Nests (fun k => kept[k]?.elim 0 level) index := by
  have hindex : kept[index]?.elim 0 level = level place := by
    rw [hplace]
    rfl
  have hmoved {k : Nat} (hk : k ∈ kept) : kept[kept.idxOf k]?.elim 0 level = level k := by
    rw [getElem?_idxOf hk]
    rfl
  constructor
  · intro t' ht'
    obtain ⟨t, ht, hkept, rfl⟩ := mem_movedState_iff.mp ht'
    dsimp only
    rw [hmoved hkept, hindex]
    exact h.target_le t ht
  · intro body' hbody'
    have haction : (movedState kept index s).action =
        s.action.map (·.mapBody fun k => (kept.idxOf? k).getD k) := rfl
    rw [(State.asks?_of_mapBody haction).1] at hbody'
    obtain ⟨body, hasks, rfl⟩ := Option.map_eq_some_iff.mp hbody'
    have hkept := hbody _ (State.body?_of_asks? hasks)
    dsimp only
    rw [idxOf?_of_mem hkept, Option.getD_some, hmoved hkept, hindex]
    exact h.body_lt body hasks

theorem NestsWithin.retainOnly (h : a.NestsWithin most) {kept : List Nat}
    (hbodies : a.KeepsBodies kept) (hwf : a.WellFormed) :
    (a.retainOnly kept).2.NestsWithin most := by
  unfold Automaton.retainOnly
  dsimp only
  split
  · exact h
  · obtain ⟨level, hnests, hinitial⟩ := h
    refine ⟨fun k => (a.keptStates (Graph.mark a.stateCount kept))[k]?.elim 0 level,
      fun index s' hs' => ?_, fun i hi => ?_⟩
    · obtain ⟨place, s, hplace, hs, rfl⟩ := getElem?_retain.mp hs'
      have hkept := (mem_keptStates_mark.mp (List.mem_of_getElem? hplace)).2
      apply nests_movedState (hnests place s hs) hplace
      intro body hbody
      exact mem_keptStates_mark.mpr
        ⟨(hwf.fits place s hs).body_lt body hbody, hbodies place s hs body hbody hkept⟩
    · rw [retain_eq] at hi
      obtain ⟨place, hplace, hmoved⟩ := Option.bind_eq_some_iff.mp hi
      obtain ⟨hkept, rfl⟩ := idxOf?_eq_some_iff.mp hmoved
      dsimp only
      rw [getElem?_idxOf hkept]
      exact hinitial place hplace

theorem Nests.mapStates (h : a.Nests level) {f : State → State} {place : Nat → Nat}
    (hf : ∀ s, (f s).Imitates place s)
    (hplaces : ∀ s ∈ a.states, ∀ t ∈ s.successors, level (place t) ≤ level t)
    (initial current : Option Nat) : (a.mapStates f initial current).Nests level := by
  intro index s' hs'
  rw [getElem?_mapStates] at hs'
  obtain ⟨s, hs, rfl⟩ := Option.map_eq_some_iff.mp hs'
  exact (h index s hs).imitated (hf s) rfl (hplaces s (Array.mem_of_getElem? hs))

theorem NestsWithin.mergeTransitions (h : a.NestsWithin most) :
    a.mergeTransitions.2.NestsWithin most := by
  obtain ⟨level, h, hinitial⟩ := h
  refine ⟨level, ?_, hinitial⟩
  exact h.mapStates merged_imitates (fun _ _ _ _ => Nat.le_refl _) a.initial a.current

/-- What a state only leads on to is on no higher level. -/
theorem Nests.level_endsAfter_le (h : a.Nests level) {k s e : Nat} (hends : a.EndsAfter k s e) :
    level e ≤ level s := by
  induction hends with
  | here _ => exact Nat.le_refl _
  | step hnext _ ih =>
    obtain ⟨state, hstate, _, t, htransitions, _, rfl⟩ := leadsOnTo?_eq_some hnext
    have hmem : t ∈ state.transitions := htransitions ▸ List.mem_singleton_self t
    exact ih.trans ((h _ state hstate).target_le t hmem)

theorem Nests.level_resolved_le (h : a.Nests level) {s : Nat} (hs : s < a.stateCount) :
    level (a.resolved s) ≤ level s := by
  rw [resolved_eq hs]
  rcases resolveForward_cases s (a.stateCount + 1) s with heq | ⟨k, _, hends⟩
  · rw [heq]
  · exact h.level_endsAfter_le hends

theorem NestsWithin.bypassForwarders (h : a.NestsWithin most) (hwf : a.WellFormed) {i : Nat}
    (hi : a.initial = some i) : a.bypassForwarders.2.NestsWithin most := by
  obtain ⟨level, h, hinitial⟩ := h
  obtain ⟨current, heq, _⟩ := bypassForwarders_eq hwf hi
  rw [heq]
  refine ⟨level, h.mapStates bypassed_imitates (fun s hs t ht => ?_) _ current, fun j hj => ?_⟩
  · obtain ⟨index, hindex⟩ := Array.mem_iff_getElem?.mp hs
    exact h.level_resolved_le (hwf.successor_lt hindex ht)
  · cases hj
    exact (h.level_resolved_le (hwf.initial_lt i hi)).trans (hinitial i hi)

theorem NestsWithin.simplifyOnce (h : a.NestsWithin most) (hwf : a.WellFormed) {i : Nat}
    (hi : a.initial = some i) : a.simplifyOnce.2.NestsWithin most := by
  have hfirst := restates_removeUnreachable hwf hi
  obtain ⟨j, hj⟩ := hfirst.exists_initial
  have hsecond := restates_removeDead hfirst.wellFormed hj
  obtain ⟨k, hk⟩ := hsecond.exists_initial
  have hthird := restates_mergeTransitions hsecond.wellFormed hk
  obtain ⟨l, hl⟩ := hthird.exists_initial
  have hreached : a.removeUnreachable.2.NestsWithin most :=
    h.retainOnly hwf.keepsBodies_reachable hwf
  have hlive : a.removeUnreachable.2.removeDead.2.NestsWithin most :=
    hreached.retainOnly hfirst.wellFormed.keepsBodies_livePart hfirst.wellFormed
  exact hlive.mergeTransitions.bypassForwarders hthird.wellFormed hl

/-- To simplify an automaton nests nothing more deeply. -/
theorem NestsWithin.optimize (h : a.NestsWithin most) {b : Automaton} {base nextId : UInt32}
    (hrun : a.optimize.run base = ((.ok (), b), nextId)) : b.NestsWithin most := by
  cases hi : a.initial with
  | none =>
    unfold Automaton.optimize at hrun
    rw [hi] at hrun
    cases hrun
    exact h
  | some i =>
    rcases optimize_ok hrun with ⟨_, rfl⟩ | ⟨hwf, fuel, rfl | ⟨hbare, _⟩⟩
    · exact h
    · exact simplifyFully_keeps (fun _ _ hwf hi h => h.simplifyOnce hwf hi) fuel hwf hi h
    · exact hbare.nestsWithin most

end Automaton

/-! The levels of compiled automata. -/

namespace Tree

mutual

/-- How deeply bodies are nested in an expression: those of lookarounds, atomic groups, possessive
repetitions, and of the lookarounds that conditions ask for. -/
def bodyDepth : Tree → Nat
  | .capture _ _ child | .group child | .scope _ child => child.bodyDepth
  | .repetition q child => if q.possessive then child.bodyDepth + 1 else child.bodyDepth
  | .look _ child | .atomic child => child.bodyDepth + 1
  | .groupCond _ yes none => yes.bodyDepth
  | .groupCond _ yes (some no) => max yes.bodyDepth no.bodyDepth
  | .lookCond _ test yes none => max (test.bodyDepth + 1) yes.bodyDepth
  | .lookCond _ test yes (some no) => max (test.bodyDepth + 1) (max yes.bodyDepth no.bodyDepth)
  | .alt items | .concat items => bodyDepths items
  | .empty | .comment _ | .invalid | .literal _ | .dot | .cls _ _ | .backref _ | .anchor _
  | .boundary _ | .options _ | .verb _ => 0

/-- How deeply bodies are nested in several expressions. -/
def bodyDepths : List Tree → Nat
  | [] => 0
  | item :: rest => max item.bodyDepth (bodyDepths rest)

end

end Tree

/-- A state leads to states of its own level, and its body is on a level below. -/
structure State.OnLevel (levels : List Nat) (level : Nat) (s : State) : Prop where
  target_eq : ∀ t ∈ s.transitions, levels[t.target]? = some level
  body_lt : ∀ body, s.asks? = some body → ∃ below < level, levels[body.start]? = some below

/-- Both ends of a fragment are on a level. -/
structure Fragment.OnLevel (level : Nat) (f : Fragment) (levels : List Nat) : Prop where
  start_eq : levels[f.start]? = some level
  stop_eq : levels[f.stop]? = some level

/-- What a list says of a place, a longer one says too. -/
theorem getElem?_of_longer {levels levels' : List Nat} {k level : Nat} (hmore : levels <+: levels')
    (h : levels[k]? = some level) : levels'[k]? = some level := by
  obtain ⟨rest, rfl⟩ := hmore
  rw [List.getElem?_append_left (List.getElem?_eq_some_iff.mp h).1, h]

variable {levels levels' : List Nat} {level : Nat}

theorem State.OnLevel.mono {s : State} (h : s.OnLevel levels level) (hmore : levels <+: levels') :
    s.OnLevel levels' level := by
  refine ⟨fun t ht => getElem?_of_longer hmore (h.target_eq t ht), fun body hbody => ?_⟩
  obtain ⟨below, hbelow, hstart⟩ := h.body_lt body hbody
  exact ⟨below, hbelow, getElem?_of_longer hmore hstart⟩

namespace Blueprint

open Automaton RegexEngine.Tree

variable {p : Blueprint}

/-- The states that were built so far are on their levels. -/
structure Leveled (levels : List Nat) (p : Blueprint) : Prop where
  length_eq : levels.length = p.size
  states : ∀ (k : Nat) (s : State) (level : Nat), p.automaton.states[k]? = some s →
    levels[k]? = some level → s.OnLevel levels level

theorem Leveled.withFlags (h : p.Leveled levels) (flags : Flags) :
    Leveled levels { p with flags := flags } := ⟨h.length_eq, h.states⟩

/-- A state is added that leads nowhere yet. -/
theorem Leveled.added (h : p.Leveled levels) {state : State} (htransitions : state.transitions = [])
    (hbody : ∀ body, state.asks? = some body →
      ∃ below < level, levels[body.start]? = some below) :
    (p.added state).Leveled (levels ++ [level]) := by
  have hmore : levels <+: levels ++ [level] := List.prefix_append levels [level]
  refine ⟨by rw [size_added, List.length_append, h.length_eq, List.length_singleton], ?_⟩
  intro k s other hs hother
  rcases getElem?_added_cases hs with ⟨hk, hs⟩ | ⟨rfl, rfl⟩
  · rw [List.getElem?_append_left (h.length_eq ▸ hk)] at hother
    exact (h.states k s other hs hother).mono hmore
  · rw [← h.length_eq, List.getElem?_concat_length, Option.some.injEq] at hother
    subst hother
    refine State.OnLevel.mono ⟨fun t ht => ?_, hbody⟩ hmore
    rw [htransitions] at ht
    cases ht

/-- A state is changed so that it stays on its level. -/
theorem Leveled.changed (h : p.Leveled levels) {index : Nat} {f : State → State}
    (hf : ∀ (s : State) (level : Nat), levels[index]? = some level → s.OnLevel levels level →
      (f s).OnLevel levels level) : (p.changed index f).Leveled levels := by
  refine ⟨by rw [size_changed, h.length_eq], fun k s level hs hlevel => ?_⟩
  obtain ⟨before, hbefore, rfl | ⟨rfl, rfl⟩⟩ := getElem?_changed_cases hs
  · exact h.states k _ level hbefore hlevel
  · exact hf before level hlevel (h.states k before level hbefore hlevel)

/-- From the levels that are known, a step goes on to more. Of its answer and the levels then,
`post` is true. -/
def Levels {α : Type} (levels : List Nat) (x : Step α) (post : α → List Nat → Prop) : Prop :=
  ∀ p : Blueprint, p.Leveled levels → Yields x p fun v p' =>
    ∃ levels', levels <+: levels' ∧ p'.Leveled levels' ∧ post v levels'

section Steps

variable {α β : Type} {x : Step α} {mid : α → List Nat → Prop} {post : β → List Nat → Prop}

theorem levels_pure {v : β} (h : post v levels) : Levels levels (pure v) post :=
  fun _ hp => yields_pure ⟨levels, List.prefix_rfl, hp, h⟩

theorem levels_bind {f : α → Step β} (hx : Levels levels x mid)
    (hf : ∀ v levels', levels <+: levels' → mid v levels' → Levels levels' (f v) post) :
    Levels levels (x >>= f) post := by
  intro p hp
  refine yields_bind (hx p hp) fun v p₁ hmade w p₂ hrun => ?_
  obtain ⟨levels₁, hmore₁, hp₁, hv⟩ := hmade
  obtain ⟨levels₂, hmore₂, hp₂, hw⟩ := hf v levels₁ hmore₁ hv p₁ hp₁ w p₂ hrun
  exact ⟨levels₂, hmore₁.trans hmore₂, hp₂, hw⟩

theorem levels_map {f : α → β} (hx : Levels levels x mid)
    (hf : ∀ v levels', levels <+: levels' → mid v levels' → post (f v) levels') :
    Levels levels (f <$> x) post := by
  intro p hp
  refine yields_map (hx p hp) fun v p' hmade => ?_
  obtain ⟨levels', hmore, hp', hv⟩ := hmade
  exact ⟨levels', hmore, hp', hf v levels' hmore hv⟩

theorem levels_flags? {build : Flags → Step β} (h : ∀ flags, Levels levels (build flags) post) :
    Levels levels (flags? >>= build) post :=
  fun p => h p.flags p

theorem levels_keepingFlags (hx : Levels levels x mid) : Levels levels (keepingFlags x) mid := by
  intro p hp v p' hrun
  obtain ⟨p₁, hrun₁, rfl⟩ := run_keepingFlags_ok hrun
  obtain ⟨levels', hmore, hp₁, hv⟩ := hx p hp v p₁ hrun₁
  exact ⟨levels', hmore, hp₁.withFlags _, hv⟩

theorem levels_options (opts : OptionSet) :
    Levels levels (modify fun p => { p with flags := opts.apply p.flags }) fun _ _ => True :=
  fun _ hp => yields_modify ⟨levels, List.prefix_rfl, hp.withFlags _, trivial⟩

theorem levels_resolve (ref : GroupRef) : Levels levels (resolve ref) fun _ _ => True := by
  intro p hp g p' hrun
  obtain rfl := yields_resolve ref p g p' hrun
  exact ⟨levels, List.prefix_rfl, hp, trivial⟩

/-- A state is added, and what it does is said at once. -/
theorem levels_placed (level : Nat) {f : State → State}
    (htransitions : ∀ id, (f (.new id false)).transitions = [])
    (hbody : ∀ id body, (f (.new id false)).asks? = some body →
      ∃ below < level, levels[body.start]? = some below) :
    Levels levels (do
      let s ← newState
      change s f
      pure s) fun s levels' => levels'[s]? = some level := by
  intro p hp s p' hrun
  obtain ⟨rfl, rfl, _⟩ := yields_placed f p s p' hrun
  refine ⟨levels ++ [level], List.prefix_append levels [level],
    hp.added (htransitions _) (hbody _), ?_⟩
  change (levels ++ [level])[p.size]? = some level
  rw [← hp.length_eq, List.getElem?_concat_length]

theorem levels_newState (level : Nat) :
    Levels levels newState fun s levels' => levels'[s]? = some level := by
  intro p hp s p' hrun
  obtain ⟨rfl, rfl⟩ := yields_added p s p' hrun
  refine ⟨levels ++ [level], List.prefix_append levels [level], hp.added rfl ?_, ?_⟩
  · rintro body ⟨⟩
  · change (levels ++ [level])[p.size]? = some level
    rw [← hp.length_eq, List.getElem?_concat_length]

theorem levels_markedState (level : Nat) (marks : Marks) :
    Levels levels (markedState marks) fun s levels' => levels'[s]? = some level :=
  levels_placed level (fun _ => rfl) (by rintro _ body ⟨⟩)

theorem levels_actionState {action : Action}
    (hbody : ∀ body, action.body? = some body →
      ∃ below < level, levels[body]? = some below) :
    Levels levels (actionState action) fun s levels' => levels'[s]? = some level :=
  levels_placed level (fun _ => rfl) fun _ body hasks =>
    hbody body.start (State.body?_of_asks? hasks)

theorem levels_connect {s t : Nat} (hs : levels[s]? = some level) (ht : levels[t]? = some level)
    (label : Option Label) :
    Levels levels (modify fun p => { p with automaton := p.automaton.connect s t label 0 })
      fun _ _ => True := by
  intro p hp
  have hstays : (p.changed s fun state => state.addTransition ⟨s, t, label, 0⟩).Leveled levels := by
    apply hp.changed
    intro state other hother honlevel
    cases hs.symm.trans hother
    refine ⟨fun e he => ?_, honlevel.body_lt⟩
    rcases mem_addTransition.mp he with rfl | he
    · exact ht
    · exact honlevel.target_eq e he
  exact yields_modify ⟨levels, List.prefix_rfl, hstays, trivial⟩

theorem levels_join {s t : Nat} (hs : levels[s]? = some level) (ht : levels[t]? = some level) :
    Levels levels (join s t) fun _ _ => True :=
  levels_connect hs ht none

theorem levels_choice {s inside outside : Nat} (hs : levels[s]? = some level)
    (hinside : levels[inside]? = some level) (houtside : levels[outside]? = some level)
    (greedy : Bool) : Levels levels (choice s inside outside greedy) fun _ _ => True := by
  cases greedy with
  | true => exact levels_bind (levels_join hs hinside) fun _ _ hmore _ =>
      levels_join (getElem?_of_longer hmore hs) (getElem?_of_longer hmore houtside)
  | false => exact levels_bind (levels_join hs houtside) fun _ _ hmore _ =>
      levels_join (getElem?_of_longer hmore hs) (getElem?_of_longer hmore hinside)

/-- Marks and groups do not count. -/
theorem levels_mark (index : Nat) {f : State → State}
    (hf : ∀ s : State, (f s).transitions = s.transitions ∧ (f s).asks? = s.asks?) :
    Levels levels (change index f) fun _ _ => True := by
  intro p hp
  have hstays : (p.changed index f).Leveled levels := by
    apply hp.changed
    intro s level _ honlevel
    obtain ⟨htransitions, hasks⟩ := hf s
    exact ⟨htransitions ▸ honlevel.target_eq, hasks ▸ honlevel.body_lt⟩
  exact yields_modify ⟨levels, List.prefix_rfl, hstays, trivial⟩

end Steps

/-! Fragments. -/

/-- Whatever levels are known, a step builds a fragment on one. -/
def BuildsOn (level : Nat) (build : Step Fragment) : Prop :=
  ∀ levels, Levels levels build (Fragment.OnLevel level)

section Fragments

variable {build yes no : Step Fragment}

theorem levels_ends {start stop : Nat} (hstart : levels[start]? = some level)
    (hstop : levels[stop]? = some level) :
    Levels levels (pure ⟨start, stop⟩) (Fragment.OnLevel level) :=
  levels_pure ⟨hstart, hstop⟩

theorem levels_single {x : Step Nat}
    (hx : Levels levels x fun s levels' => levels'[s]? = some level) :
    Levels levels (single <$> x) (Fragment.OnLevel level) :=
  levels_map hx fun _ _ _ hs => ⟨hs, hs⟩

theorem buildsOn_skip (level : Nat) : BuildsOn level skip :=
  fun _ => levels_single (levels_newState level)

theorem buildsOn_marked (level : Nat) (marks : Marks) :
    BuildsOn level (single <$> markedState marks) :=
  fun _ => levels_single (levels_markedState level marks)

theorem buildsOn_acting (level : Nat) {action : Action} (hbody : action.body? = none) :
    BuildsOn level (single <$> actionState action) := by
  refine fun levels => levels_single (levels_actionState fun body h => ?_)
  rw [hbody] at h
  cases h

theorem buildsOn_consuming (level : Nat) (label : List Char) :
    BuildsOn level (consuming label) := by
  intro levels
  refine levels_bind (levels_newState level) fun start levels₁ _ hstart => ?_
  refine levels_bind (levels_newState level) fun stop levels₂ hmore₂ hstop => ?_
  have hstart₂ := getElem?_of_longer hmore₂ hstart
  cases Label.ofChars label with
  | error e =>
    intro p _ f p' hrun
    cases hrun
  | ok made =>
    simp only [pure_bind]
    refine levels_bind (levels_connect hstart₂ hstop (some made)) fun _ levels₃ hmore₃ _ => ?_
    exact levels_ends (getElem?_of_longer hmore₃ hstart₂) (getElem?_of_longer hmore₃ hstop)

theorem buildsOn_captured (h : BuildsOn level build) (index : Nat) (name : Option String) :
    BuildsOn level (captured index name build) := by
  intro levels
  refine levels_bind (levels_newState level) fun start levels₁ _ hstart => ?_
  refine levels_bind (h levels₁) fun inner levels₂ hmore₂ hinner => ?_
  refine levels_bind (levels_newState level) fun stop levels₃ hmore₃ hstop => ?_
  refine levels_bind (levels_mark start fun _ => ⟨rfl, rfl⟩) fun _ levels₄ hmore₄ _ => ?_
  refine levels_bind (levels_mark stop fun _ => ⟨rfl, rfl⟩) fun _ levels₅ hmore₅ _ => ?_
  have hmore := hmore₄.trans hmore₅
  have hstart₅ := getElem?_of_longer (hmore₂.trans (hmore₃.trans hmore)) hstart
  have hfirst := getElem?_of_longer (hmore₃.trans hmore) hinner.start_eq
  have hlast := getElem?_of_longer (hmore₃.trans hmore) hinner.stop_eq
  have hstop₅ := getElem?_of_longer hmore hstop
  refine levels_bind (levels_join hstart₅ hfirst) fun _ levels₆ hmore₆ _ => ?_
  refine levels_bind (levels_join (getElem?_of_longer hmore₆ hlast)
    (getElem?_of_longer hmore₆ hstop₅)) fun _ levels₇ hmore₇ _ => ?_
  exact levels_ends (getElem?_of_longer (hmore₆.trans hmore₇) hstart₅)
    (getElem?_of_longer (hmore₆.trans hmore₇) hstop₅)

theorem levels_copies (h : BuildsOn level build) (count : Nat) : ∀ {levels : List Nat} {last : Nat},
    levels[last]? = some level →
      Levels levels (copies build count last) fun last' levels' => levels'[last']? = some level := by
  induction count with
  | zero => exact fun hlast => levels_pure hlast
  | succ count ih =>
    intro levels last hlast
    refine levels_bind (h levels) fun inner levels₁ hmore₁ hinner => ?_
    refine levels_bind (levels_join (getElem?_of_longer hmore₁ hlast) hinner.start_eq)
      fun _ levels₂ hmore₂ _ => ?_
    exact ih (getElem?_of_longer hmore₂ hinner.stop_eq)

theorem levels_optionalCopies (h : BuildsOn level build) (exit : Nat) (greedy : Bool)
    (count : Nat) : ∀ {levels : List Nat} {last : Nat}, levels[last]? = some level →
      levels[exit]? = some level → Levels levels (optionalCopies build exit greedy count last)
        fun last' levels' => levels'[last']? = some level := by
  induction count with
  | zero => exact fun hlast _ => levels_pure hlast
  | succ count ih =>
    intro levels last hlast hexit
    refine levels_bind (h levels) fun inner levels₁ hmore₁ hinner => ?_
    refine levels_bind (levels_choice (getElem?_of_longer hmore₁ hlast) hinner.start_eq
      (getElem?_of_longer hmore₁ hexit) greedy) fun _ levels₂ hmore₂ _ => ?_
    exact ih (getElem?_of_longer hmore₂ hinner.stop_eq)
      (getElem?_of_longer (hmore₁.trans hmore₂) hexit)

theorem buildsOn_unbounded (h : BuildsOn level build) (min : Nat) (greedy : Bool) :
    BuildsOn level (repetition build min none greedy) := by
  intro levels
  refine levels_bind (levels_newState level) fun start levels₁ _ hstart => ?_
  refine levels_bind (levels_copies h (min - 1) hstart) fun last levels₂ hmore₂ hlast => ?_
  refine levels_bind (h levels₂) fun inner levels₃ hmore₃ hinner => ?_
  refine levels_bind (levels_newState level) fun exit levels₄ hmore₄ hexit => ?_
  have hstart₄ := getElem?_of_longer (hmore₂.trans (hmore₃.trans hmore₄)) hstart
  have hlast₄ := getElem?_of_longer (hmore₃.trans hmore₄) hlast
  have hfirst := getElem?_of_longer hmore₄ hinner.start_eq
  have hend := getElem?_of_longer hmore₄ hinner.stop_eq
  by_cases hmin : 0 < min
  · rw [if_pos hmin]
    refine levels_bind (levels_join hlast₄ hfirst) fun _ levels₅ hmore₅ _ => ?_
    refine levels_bind (levels_choice (getElem?_of_longer hmore₅ hend)
      (getElem?_of_longer hmore₅ hfirst) (getElem?_of_longer hmore₅ hexit) greedy)
      fun _ levels₆ hmore₆ _ => ?_
    exact levels_ends (getElem?_of_longer (hmore₅.trans hmore₆) hstart₄)
      (getElem?_of_longer (hmore₅.trans hmore₆) hexit)
  · rw [if_neg hmin]
    refine levels_bind (levels_choice hlast₄ hfirst hexit greedy) fun _ levels₅ hmore₅ _ => ?_
    refine levels_bind (levels_join (getElem?_of_longer hmore₅ hend)
      (getElem?_of_longer hmore₅ hlast₄)) fun _ levels₆ hmore₆ _ => ?_
    exact levels_ends (getElem?_of_longer (hmore₅.trans hmore₆) hstart₄)
      (getElem?_of_longer (hmore₅.trans hmore₆) hexit)

theorem buildsOn_bounded (h : BuildsOn level build) (min max : Nat) (greedy : Bool) :
    BuildsOn level (repetition build min (some max) greedy) := by
  intro levels
  refine levels_bind (levels_newState level) fun start levels₁ _ hstart => ?_
  refine levels_bind (levels_copies h min hstart) fun last levels₂ hmore₂ hlast => ?_
  refine levels_bind (levels_newState level) fun exit levels₃ hmore₃ hexit => ?_
  refine levels_bind (levels_optionalCopies h exit greedy (max - min)
    (getElem?_of_longer hmore₃ hlast) hexit) fun last' levels₄ hmore₄ hlast' => ?_
  refine levels_bind (levels_join hlast' (getElem?_of_longer hmore₄ hexit))
    fun _ levels₅ hmore₅ _ => ?_
  exact levels_ends (getElem?_of_longer (hmore₂.trans (hmore₃.trans (hmore₄.trans hmore₅))) hstart)
    (getElem?_of_longer (hmore₄.trans hmore₅) hexit)

theorem buildsOn_repetition (h : BuildsOn level build) (min : Nat) (max : Option Nat)
    (greedy : Bool) : BuildsOn level (repetition build min max greedy) := by
  cases max with
  | none => exact buildsOn_unbounded h min greedy
  | some max => exact buildsOn_bounded h min max greedy

theorem levels_closeBody {inner : Fragment} (hinner : inner.OnLevel level levels) :
    Levels levels (closeBody inner) fun s levels' => levels'[s]? = some level := by
  refine levels_bind (levels_markedState level _) fun stop levels₁ hmore₁ hstop => ?_
  refine levels_bind (levels_join (getElem?_of_longer hmore₁ hinner.stop_eq) hstop)
    fun _ levels₂ hmore₂ _ => ?_
  exact levels_pure (getElem?_of_longer (hmore₁.trans hmore₂) hinner.start_eq)

theorem levels_body (h : BuildsOn level build) (levels : List Nat) :
    Levels levels (body build) fun s levels' => levels'[s]? = some level :=
  levels_bind (levels_keepingFlags (h levels)) fun _ _ _ hinner => levels_closeBody hinner

/-- A state that asks for a body is on the level above. -/
theorem levels_asking {s : Nat} {action : Action} (hs : levels[s]? = some level)
    (haction : action.body? = some s) :
    Levels levels (actionState action) fun s' levels' => levels'[s']? = some (level + 1) := by
  apply levels_actionState
  intro body hbody
  cases haction.symm.trans hbody
  exact ⟨level, Nat.lt_succ_self level, hs⟩

theorem buildsOn_quantified {q : Quantifier} {inner : Nat} (h : BuildsOn inner build)
    (hlevel : level = if q.possessive then inner + 1 else inner) :
    BuildsOn level (quantified q build) := by
  have hkept : BuildsOn inner (keepingFlags build) := fun levels => levels_keepingFlags (h levels)
  intro levels
  apply levels_flags?
  intro flags
  dsimp only
  cases hpossessive : q.possessive with
  | true =>
    rw [hpossessive, if_pos rfl] at hlevel
    subst hlevel
    rw [if_pos rfl]
    refine levels_bind (buildsOn_repetition hkept q.min q.max true levels)
      fun made levels₁ _ hmade => ?_
    refine levels_bind (levels_closeBody hmade) fun s levels₂ _ hs => ?_
    exact levels_single (levels_asking hs rfl)
  | false =>
    rw [hpossessive, if_neg Bool.false_ne_true] at hlevel
    subst hlevel
    rw [if_neg Bool.false_ne_true]
    exact buildsOn_repetition hkept q.min q.max _ levels

theorem levels_conditional {condition : Condition} (hyes : BuildsOn level yes)
    (hno : BuildsOn level no)
    (hbody : ∀ body, (Action.branch condition).body? = some body →
      ∃ below < level, levels[body]? = some below) :
    Levels levels (conditional condition yes no) (Fragment.OnLevel level) := by
  refine levels_bind (levels_actionState hbody) fun s levels₁ _ hs => ?_
  refine levels_bind (levels_newState level) fun stop levels₂ hmore₂ hstop => ?_
  refine levels_bind (levels_keepingFlags (hyes levels₂)) fun first levels₃ hmore₃ hfirst => ?_
  refine levels_bind (levels_keepingFlags (hno levels₃)) fun second levels₄ hmore₄ hsecond => ?_
  have hs₄ := getElem?_of_longer (hmore₂.trans (hmore₃.trans hmore₄)) hs
  have hstop₄ := getElem?_of_longer (hmore₃.trans hmore₄) hstop
  refine levels_bind (levels_join hs₄ (getElem?_of_longer hmore₄ hfirst.start_eq))
    fun _ levels₅ hmore₅ _ => ?_
  refine levels_bind (levels_join (getElem?_of_longer hmore₅ hs₄)
    (getElem?_of_longer hmore₅ hsecond.start_eq)) fun _ levels₆ hmore₆ _ => ?_
  have hmore := hmore₅.trans hmore₆
  have hlast := getElem?_of_longer (hmore₄.trans hmore) hfirst.stop_eq
  have hlast' := getElem?_of_longer hmore hsecond.stop_eq
  have hstop₆ := getElem?_of_longer hmore hstop₄
  refine levels_bind (levels_join hlast hstop₆) fun _ levels₇ hmore₇ _ => ?_
  refine levels_bind (levels_join (getElem?_of_longer hmore₇ hlast')
    (getElem?_of_longer hmore₇ hstop₆)) fun _ levels₈ hmore₈ _ => ?_
  exact levels_ends (getElem?_of_longer (hmore.trans (hmore₇.trans hmore₈)) hs₄)
    (getElem?_of_longer (hmore₇.trans hmore₈) hstop₆)

theorem buildsOn_groupCond (ref : GroupRef) (hyes : BuildsOn level yes) (hno : BuildsOn level no) :
    BuildsOn level (resolve ref >>= fun group => conditional (.group group) yes no) := by
  refine fun levels => levels_bind (levels_resolve ref) fun group levels₁ _ _ => ?_
  apply levels_conditional hyes hno
  rintro body ⟨⟩

theorem buildsOn_lookCond (kind : LookKind) {test : Step Fragment} {inner : Nat}
    (htest : BuildsOn inner test) (hinner : inner < level) (hyes : BuildsOn level yes)
    (hno : BuildsOn level no) :
    BuildsOn level (body test >>= fun b => conditional (.look kind b) yes no) := by
  refine fun levels => levels_bind (levels_body htest levels) fun b levels₁ _ hb => ?_
  apply levels_conditional hyes hno
  rintro other ⟨⟩
  exact ⟨inner, hinner, hb⟩

/-- Alternatives are added between two states of the level. -/
theorem levels_alternatives_cons {item : Tree} {rest : List Tree}
    (hitem : BuildsOn level (fragment item))
    (hrest : ∀ levels start stop, levels[start]? = some level → levels[stop]? = some level →
      Levels levels (alternatives start stop rest) fun _ _ => True)
    {start stop : Nat} (hstart : levels[start]? = some level)
    (hstop : levels[stop]? = some level) :
    Levels levels (alternatives start stop (item :: rest)) fun _ _ => True := by
  refine levels_bind (hitem levels) fun inner levels₁ hmore₁ hinner => ?_
  refine levels_bind (levels_join (getElem?_of_longer hmore₁ hstart) hinner.start_eq)
    fun _ levels₂ hmore₂ _ => ?_
  have hmore := hmore₁.trans hmore₂
  refine levels_bind (levels_join (getElem?_of_longer hmore₂ hinner.stop_eq)
    (getElem?_of_longer hmore hstop)) fun _ levels₃ hmore₃ _ => ?_
  exact hrest levels₃ start stop (getElem?_of_longer (hmore.trans hmore₃) hstart)
    (getElem?_of_longer (hmore.trans hmore₃) hstop)

theorem buildsOn_alt {items : List Tree}
    (h : ∀ levels start stop, levels[start]? = some level → levels[stop]? = some level →
      Levels levels (alternatives start stop items) fun _ _ => True) :
    BuildsOn level (fragment (.alt items)) := by
  refine fun levels => levels_keepingFlags ?_
  refine levels_bind (levels_newState level) fun start levels₁ _ hstart => ?_
  refine levels_bind (levels_newState level) fun stop levels₂ hmore₂ hstop => ?_
  have hstart₂ := getElem?_of_longer hmore₂ hstart
  refine levels_bind (h levels₂ start stop hstart₂ hstop) fun _ levels₃ hmore₃ _ => ?_
  exact levels_ends (getElem?_of_longer hmore₃ hstart₂) (getElem?_of_longer hmore₃ hstop)

/-- An expression is appended to a fragment of the level. -/
theorem levels_sequel_cons {item : Tree} {rest : List Tree}
    (hitem : BuildsOn level (fragment item))
    (hrest : ∀ levels before, before.OnLevel level levels →
      Levels levels (sequel before rest) (Fragment.OnLevel level))
    {before : Fragment} (hbefore : before.OnLevel level levels) :
    Levels levels (sequel before (item :: rest)) (Fragment.OnLevel level) := by
  refine levels_bind (hitem levels) fun inner levels₁ hmore₁ hinner => ?_
  refine levels_bind (levels_join (getElem?_of_longer hmore₁ hbefore.stop_eq) hinner.start_eq)
    fun _ levels₂ hmore₂ _ => ?_
  exact hrest levels₂ _ ⟨getElem?_of_longer (hmore₁.trans hmore₂) hbefore.start_eq,
    getElem?_of_longer hmore₂ hinner.stop_eq⟩

end Fragments

mutual

/-- The fragment of an expression is on every level that has room for its bodies. -/
theorem buildsOn_fragment : (t : Tree) → (level : Nat) → t.bodyDepth ≤ level →
    BuildsOn level (fragment t)
  | .empty, level, _ => buildsOn_skip level
  | .comment _, level, _ => buildsOn_skip level
  | .invalid, level, _ => buildsOn_acting level rfl
  | .literal _, level, _ => fun levels => levels_flags? fun _ => buildsOn_consuming level _ levels
  | .dot, level, _ => fun levels => levels_flags? fun _ => by
    split
    · exact buildsOn_consuming level _ levels
    · exact buildsOn_consuming level _ levels
  | .cls _ _, level, _ => fun levels => levels_flags? fun _ => buildsOn_consuming level _ levels
  | .anchor _, level, _ => fun levels => levels_flags? fun _ => buildsOn_marked level _ levels
  | .boundary _, level, _ => buildsOn_marked level _
  | .options opts, level, _ => fun levels => levels_bind (levels_options opts) fun _ levels' _ _ =>
    buildsOn_skip level levels'
  | .verb v, level, _ => buildsOn_acting level (by cases v <;> rfl)
  | .backref ref, level, _ => fun levels => levels_bind (levels_resolve ref) fun _ levels' _ _ =>
    levels_flags? fun _ => buildsOn_acting level rfl levels'
  | .capture index name child, level, h => fun levels => levels_keepingFlags
    (buildsOn_captured (buildsOn_fragment child level h) index name levels)
  | .group child, level, h => fun levels => levels_keepingFlags
    (buildsOn_fragment child level h levels)
  | .scope opts child, level, h => fun levels => levels_keepingFlags
    (levels_bind (levels_options opts) fun _ levels' _ _ => buildsOn_fragment child level h levels')
  | .repetition q child, level, h => by
    rw [Tree.bodyDepth] at h
    cases hpossessive : q.possessive with
    | true =>
      rw [hpossessive, if_pos rfl] at h
      obtain ⟨inner, rfl⟩ := Nat.exists_eq_add_of_lt h
      apply buildsOn_quantified (buildsOn_fragment child (child.bodyDepth + inner) (by omega))
      rw [hpossessive, if_pos rfl]
    | false =>
      rw [hpossessive, if_neg Bool.false_ne_true] at h
      apply buildsOn_quantified (buildsOn_fragment child level h)
      rw [hpossessive, if_neg Bool.false_ne_true]
  | .look kind child, level, h => by
    obtain ⟨inner, rfl⟩ := Nat.exists_eq_add_of_lt h
    refine fun levels => levels_bind
      (levels_body (buildsOn_fragment child (child.bodyDepth + inner) (by omega)) levels)
      fun s levels' _ hs => levels_single (levels_asking hs rfl)
  | .atomic child, level, h => by
    obtain ⟨inner, rfl⟩ := Nat.exists_eq_add_of_lt h
    refine fun levels => levels_bind
      (levels_body (buildsOn_fragment child (child.bodyDepth + inner) (by omega)) levels)
      fun s levels' _ hs => levels_single (levels_asking hs rfl)
  | .groupCond ref yes none, level, h =>
    buildsOn_groupCond ref (buildsOn_fragment yes level h) (buildsOn_skip level)
  | .groupCond ref yes (some no), level, h => by
    rw [Tree.bodyDepth, Nat.max_le] at h
    exact buildsOn_groupCond ref (buildsOn_fragment yes level h.1) (buildsOn_fragment no level h.2)
  | .lookCond kind test yes none, level, h => by
    rw [Tree.bodyDepth, Nat.max_le] at h
    exact buildsOn_lookCond kind (buildsOn_fragment test _ (Nat.le_refl _)) h.1
      (buildsOn_fragment yes level h.2) (buildsOn_skip level)
  | .lookCond kind test yes (some no), level, h => by
    rw [Tree.bodyDepth, Nat.max_le, Nat.max_le] at h
    exact buildsOn_lookCond kind (buildsOn_fragment test _ (Nat.le_refl _)) h.1
      (buildsOn_fragment yes level h.2.1) (buildsOn_fragment no level h.2.2)
  | .alt items, level, h => buildsOn_alt fun _ _ _ hstart hstop =>
    levels_alternatives items level h hstart hstop
  | .concat [], level, _ => buildsOn_skip level
  | .concat (item :: rest), level, h => by
    rw [Tree.bodyDepth, bodyDepths, Nat.max_le] at h
    exact fun levels => levels_bind (buildsOn_fragment item level h.1 levels)
      fun first levels' _ hfirst => levels_sequel rest level h.2 hfirst

theorem levels_alternatives : (items : List Tree) → (level : Nat) → bodyDepths items ≤ level →
    ∀ {levels : List Nat} {start stop : Nat}, levels[start]? = some level →
      levels[stop]? = some level → Levels levels (alternatives start stop items) fun _ _ => True
  | [], _, _ => fun _ _ => levels_pure trivial
  | item :: rest, level, h => by
    rw [bodyDepths, Nat.max_le] at h
    exact levels_alternatives_cons (buildsOn_fragment item level h.1)
      fun _ _ _ hstart hstop => levels_alternatives rest level h.2 hstart hstop

theorem levels_sequel : (items : List Tree) → (level : Nat) → bodyDepths items ≤ level →
    ∀ {levels : List Nat} {before : Fragment}, before.OnLevel level levels →
      Levels levels (sequel before items) (Fragment.OnLevel level)
  | [], _, _ => fun hbefore => levels_pure hbefore
  | item :: rest, level, h => by
    rw [bodyDepths, Nat.max_le] at h
    exact levels_sequel_cons (buildsOn_fragment item level h.1)
      fun _ _ hbefore => levels_sequel rest level h.2 hbefore

end

/-- The whole automaton is on the level that has just room for the bodies of its expression. -/
theorem levels_whole (root : Tree) :
    Levels [] (whole root) (Fragment.OnLevel root.bodyDepth) := by
  refine levels_bind (buildsOn_fragment root _ (Nat.le_refl _) []) fun inner levels₁ _ hinner => ?_
  refine levels_bind (levels_newState root.bodyDepth) fun stop levels₂ hmore₂ hstop => ?_
  refine levels_bind (levels_join (getElem?_of_longer hmore₂ hinner.stop_eq) hstop)
    fun _ levels₃ hmore₃ _ => ?_
  refine levels_bind (levels_mark stop fun _ => ⟨rfl, rfl⟩) fun _ levels₄ hmore₄ _ => ?_
  exact levels_ends
    (getElem?_of_longer (hmore₂.trans (hmore₃.trans hmore₄)) hinner.start_eq)
    (getElem?_of_longer (hmore₃.trans hmore₄) hstop)

theorem leveled_empty (base : UInt32) (flags : Flags) (groups : List (Option String))
    (maxStates : Nat) : Leveled [] ⟨.empty .nfa, base, flags, groups, maxStates⟩ := by
  refine ⟨rfl, ?_⟩
  rintro k s level - ⟨⟩

end Blueprint

/-- In a compiled automaton bodies are nested no more deeply than in its expression. -/
theorem Automaton.ofTree_nestsWithin {tree : SyntaxTree} {maxStates : Nat} {base nextId : UInt32}
    {a : Automaton} (hrun : (ofTree tree maxStates).run base = (.ok a, nextId)) :
    a.NestsWithin tree.root.bodyDepth := by
  obtain ⟨f, p, hwhole, hstates, hinitial⟩ := ofTree_run hrun
  obtain ⟨levels, _, hleveled, hends⟩ := Blueprint.levels_whole tree.root _
    (Blueprint.leveled_empty base tree.flags tree.groups maxStates) f p hwhole
  have hlevel {k level : Nat} (h : levels[k]? = some level) : levels[k]?.getD 0 = level := by
    rw [h, Option.getD_some]
  refine ⟨fun k => levels[k]?.getD 0, fun k s hs => ?_, fun i hi => ?_⟩
  · rw [hstates] at hs
    have hk : k < levels.length := by
      rw [hleveled.length_eq]
      exact (Array.getElem?_eq_some_iff.mp hs).1
    have hhere : levels[k]? = some levels[k] := List.getElem?_eq_getElem hk
    have honlevel := hleveled.states k s _ hs hhere
    constructor
    · intro t ht
      exact Nat.le_of_eq ((hlevel (honlevel.target_eq t ht)).trans (hlevel hhere).symm)
    · intro body hbody
      obtain ⟨below, hbelow, hstart⟩ := honlevel.body_lt body hbody
      rwa [hlevel hstart, hlevel hhere]
  · cases hinitial.symm.trans hi
    exact Nat.le_of_eq (hlevel hends.start_eq)

end RegexEngine
