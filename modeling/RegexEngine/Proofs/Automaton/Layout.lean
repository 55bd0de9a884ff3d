import RegexEngine.Proofs.Automaton.Fragments
import RegexEngine.Proofs.Automaton.Trim

/-!
How the states of an automaton under construction hang together. A step of the construction adds
states and transitions and takes none away, so what can be reached stays reachable. `On` says of a
state that it belongs to a fragment: it can be reached from the start, and what follows it comes to
the stop or to a state where something ends. A fragment that runs from a state of another fragment
to a state of it belongs to that with all its states, so of a composed fragment only the ends of its
parts have to be looked at.
-/

namespace RegexEngine

/-- A state came of another one by adding to it: it does the same, and leads on to at least as much.
-/
structure State.Grows (s s' : State) : Prop where
  transitions : s.transitions ⊆ s'.transitions
  action_eq : s'.action = s.action
  isFinal : Automaton.isFinal s = true → Automaton.isFinal s' = true

theorem State.Grows.refl (s : State) : s.Grows s := ⟨fun _ h => h, rfl, fun h => h⟩

namespace Automaton

variable {a b c : Automaton} {s t u : Nat}

/-- An automaton came of another one by adding to it. -/
def Grows (a b : Automaton) : Prop :=
  ∀ (k : Nat) (s : State), a.states[k]? = some s → ∃ s', b.states[k]? = some s' ∧ s.Grows s'

theorem Grows.refl (a : Automaton) : a.Grows a := fun _ s hs => ⟨s, hs, .refl s⟩

theorem Grows.trans (h : a.Grows b) (h' : b.Grows c) : a.Grows c := by
  intro k s hs
  obtain ⟨s', hs', hgrows⟩ := h k s hs
  obtain ⟨s'', hs'', hgrows'⟩ := h' k s' hs'
  exact ⟨s'', hs'', fun _ ht => hgrows'.transitions (hgrows.transitions ht),
    hgrows'.action_eq.trans hgrows.action_eq, fun hfinal => hgrows'.isFinal (hgrows.isFinal hfinal)⟩

theorem Grows.targets (h : a.Grows b) (ht : t ∈ a.targets s) : t ∈ b.targets s := by
  cases hstate : a.states[s]? with
  | none => simp [Automaton.targets, hstate] at ht
  | some state =>
    obtain ⟨e, he, rfl⟩ := (mem_targets_iff hstate).mp ht
    obtain ⟨state', hstate', hgrows⟩ := h s state hstate
    exact (mem_targets_iff hstate').mpr ⟨e, hgrows.transitions he, rfl⟩

theorem Grows.successors (h : a.Grows b) (ht : t ∈ a.successors s) : t ∈ b.successors s := by
  cases hstate : a.states[s]? with
  | none => simp [Automaton.successors, hstate] at ht
  | some state =>
    obtain ⟨state', hstate', hgrows⟩ := h s state hstate
    rw [successors_eq hstate] at ht
    rw [successors_eq hstate']
    unfold State.successors at ht ⊢
    rw [hgrows.action_eq]
    rcases List.mem_append.mp ht with ht | ht
    · exact List.mem_append_left _ (List.map_subset _ hgrows.transitions ht)
    · exact List.mem_append_right _ ht

/-- The first state leads to the second, over transitions and into bodies. -/
def Reaches (a : Automaton) (s t : Nat) : Prop :=
  Relation.ReflTransGen (fun u v => v ∈ a.successors u) s t

/-- What follows the first state comes to the second, or to where something ends. -/
def ComesTo (a : Automaton) (s t : Nat) : Prop :=
  a.IsLive s ∨ Relation.ReflTransGen (fun u v => v ∈ a.targets u) s t

theorem Grows.reaches (h : a.Grows b) (hs : a.Reaches s t) : b.Reaches s t :=
  Relation.ReflTransGen.mono (fun _ _ => h.successors) _ _ hs

theorem Grows.isLive (h : a.Grows b) (hs : a.IsLive s) : b.IsLive s := by
  obtain ⟨e, state, hpath, hstate, hfinal⟩ := hs
  obtain ⟨state', hstate', hgrows⟩ := h e state hstate
  exact ⟨e, state', Relation.ReflTransGen.mono (fun _ _ => h.targets) _ _ hpath, hstate',
    hgrows.isFinal hfinal⟩

theorem Grows.comesTo (h : a.Grows b) (hs : a.ComesTo s t) : b.ComesTo s t :=
  hs.imp h.isLive (Relation.ReflTransGen.mono (fun _ _ => h.targets) _ _)

theorem ComesTo.isLive (h : a.ComesTo s t) (ht : a.IsLive t) : a.IsLive s := by
  rcases h with h | hpath
  · exact h
  · obtain ⟨e, state, hpath', hend⟩ := ht
    exact ⟨e, state, hpath.trans hpath', hend⟩

theorem ComesTo.trans (h : a.ComesTo s t) (h' : a.ComesTo t u) : a.ComesTo s u := by
  rcases h' with hlive | hpath'
  · exact .inl (h.isLive hlive)
  · exact h.imp_right fun hpath => hpath.trans hpath'

/-- The second state follows the first one, and what follows the first one comes to the second. -/
structure Passes (a : Automaton) (s t : Nat) : Prop where
  reaches : a.Reaches s t
  comesTo : a.ComesTo s t

theorem Passes.refl (a : Automaton) (s : Nat) : a.Passes s s := ⟨.refl, .inr .refl⟩

theorem Passes.trans (h : a.Passes s t) (h' : a.Passes t u) : a.Passes s u :=
  ⟨Relation.ReflTransGen.trans h.reaches h'.reaches, h.comesTo.trans h'.comesTo⟩

theorem Passes.of_mem_targets (h : t ∈ a.targets s) : a.Passes s t :=
  ⟨.single (mem_targets_mem_successors h), .inr (.single h)⟩

theorem Grows.passes (h : a.Grows b) (hs : a.Passes s t) : b.Passes s t :=
  ⟨h.reaches hs.reaches, h.comesTo hs.comesTo⟩

/-- A state belongs to what starts at the one place and stops at the other. -/
structure On (a : Automaton) (start stop s : Nat) : Prop where
  reached : a.Reaches start s
  comesTo : a.ComesTo s stop

theorem On.of_passes (h : a.Passes s t) (h' : a.Passes t u) : a.On s u t := ⟨h.reaches, h'.comesTo⟩

theorem On.passes (h : a.On s u s) (h' : a.On s u u) : a.Passes s u := ⟨h'.reached, h.comesTo⟩

/-- What belongs to a part belongs to the whole that the ends of the part belong to. -/
theorem On.within {start stop start' stop' : Nat} (h : a.On start stop s)
    (hstart : a.On start' stop' start) (hstop : a.On start' stop' stop) : a.On start' stop' s :=
  ⟨Relation.ReflTransGen.trans hstart.reached h.reached, h.comesTo.trans hstop.comesTo⟩

theorem Grows.on {start stop : Nat} (h : a.Grows b) (hs : a.On start stop s) : b.On start stop s :=
  ⟨h.reaches hs.reached, h.comesTo hs.comesTo⟩

/-- All states from one place up to another belong to what starts and stops here. -/
def Owns (a : Automaton) (start stop lo hi : Nat) : Prop :=
  ∀ s, lo ≤ s → s < hi → a.On start stop s

theorem Owns.append {start stop lo mid hi : Nat} (h : a.Owns start stop lo mid)
    (h' : a.Owns start stop mid hi) : a.Owns start stop lo hi :=
  fun s hlo hhi => (Nat.lt_or_ge s mid).elim (h s hlo) fun hmid => h' s hmid hhi

/-- The states of a part belong to what its ends belong to. -/
theorem Owns.within {start stop start' stop' lo hi : Nat} (h : a.Owns start stop lo hi)
    (hgrows : a.Grows b) (hstart : b.On start' stop' start) (hstop : b.On start' stop' stop) :
    b.Owns start' stop' lo hi :=
  fun s hlo hhi => (hgrows.on (h s hlo hhi)).within hstart hstop

/-- A state may be added to an automaton. -/
theorem grows_withState (a : Automaton) (state : State) : a.Grows (a.withState state) := by
  intro k s hs
  have hk : k < a.states.size := (Array.getElem?_eq_some_iff.mp hs).1
  refine ⟨s, ?_, .refl s⟩
  rw [withState, Array.getElem?_push, if_neg (Nat.ne_of_lt hk), hs]

theorem grows_modifyState (a : Automaton) (index : Nat) {f : State → State}
    (hf : ∀ state : State, state.Grows (f state)) : a.Grows (a.modifyState index f) := by
  intro k s hs
  simp only [modifyState, Array.getElem?_modify, hs, Option.map_some]
  split
  · exact ⟨f s, rfl, hf s⟩
  · exact ⟨s, rfl, .refl s⟩

/-- A transition is put among the others. -/
theorem mem_addTransition {s : State} {t e : Transition} :
    e ∈ (s.addTransition t).transitions ↔ e = t ∨ e ∈ s.transitions := by
  simp only [State.addTransition, List.mem_append, List.mem_cons]
  rw [or_left_comm, ← List.mem_append, List.takeWhile_append_dropWhile]

theorem mem_targets_connect {source target : Nat} (hsource : source < a.stateCount)
    (label : Option Label) (priority : Int) :
    target ∈ (a.connect source target label priority).targets source := by
  have hstate : (a.connect source target label priority).states[source]? =
      some (a.states[source].addTransition ⟨source, target, label, priority⟩) := by
    rw [connect, modifyState, Array.getElem?_modify, if_pos rfl, Array.getElem?_eq_getElem hsource]
    rfl
  exact (mem_targets_iff hstate).mpr ⟨_, mem_addTransition.mpr (.inl rfl), rfl⟩

@[simp] theorem stateCount_withState (a : Automaton) (state : State) :
    (a.withState state).stateCount = a.stateCount + 1 := by
  simp [withState, stateCount]

@[simp] theorem stateCount_modifyState (a : Automaton) (index : Nat) (f : State → State) :
    (a.modifyState index f).stateCount = a.stateCount := by
  simp [modifyState, stateCount]

@[simp] theorem stateCount_connect (a : Automaton) (source target : Nat) (label : Option Label)
    (priority : Int) : (a.connect source target label priority).stateCount = a.stateCount :=
  stateCount_modifyState ..

theorem ids_modifyState (a : Automaton) (index : Nat) {f : State → State}
    (hid : ∀ state, (f state).id = state.id) :
    (a.modifyState index f).states.toList.map (·.id) = a.states.toList.map (·.id) := by
  refine List.ext_getElem? fun k => ?_
  simp only [List.getElem?_map, Array.getElem?_toList, modifyState, Array.getElem?_modify]
  split
  · cases a.states[k]? <;> simp [hid]
  · rfl

end Automaton

namespace Blueprint

open Automaton

variable {base : UInt32} {p : Blueprint}

/-- Number of states so far. -/
def size (p : Blueprint) : Nat := p.automaton.stateCount

/-- What every step of the construction keeps. States carry numbers in a row, and refer to no state
outside. -/
structure Sound (base : UInt32) (p : Blueprint) : Prop where
  kind_eq : p.automaton.kind = .nfa
  ids_eq : p.automaton.states.toList.map (·.id) =
    (List.range p.size).map fun k => base + UInt32.ofNat k
  nextId_eq : p.nextId = base + UInt32.ofNat p.size
  size_le : p.size ≤ p.maxStates
  fits : ∀ (k : Nat) (s : State), p.automaton.states[k]? = some s → s.FitsAt p.size k

/-- The construction has gone on, and is sound. -/
structure Continues (base : UInt32) (p p' : Blueprint) : Prop where
  sound : p'.Sound base
  grows : p.automaton.Grows p'.automaton
  size_le : p.size ≤ p'.size
  bound_eq : p'.maxStates = p.maxStates

theorem Continues.refl (h : p.Sound base) : p.Continues base p := ⟨h, .refl _, Nat.le_refl _, rfl⟩

theorem Continues.trans {p' p'' : Blueprint} (h : Continues base p p')
    (h' : Continues base p' p'') : Continues base p p'' :=
  ⟨h'.sound, h.grows.trans h'.grows, Nat.le_trans h.size_le h'.size_le,
    h'.bound_eq.trans h.bound_eq⟩

/-- A fragment between two states was built: it has all states that were added. -/
structure Lays (base : UInt32) (p p' : Blueprint) (start stop : Nat) : Prop
    extends Continues base p p' where
  start_ge : p.size ≤ start
  start_lt : start < p'.size
  stop_ge : p.size ≤ stop
  stop_lt : stop < p'.size
  owns : p'.automaton.Owns start stop p.size p'.size

theorem Lays.passes {p' : Blueprint} {start stop : Nat} (h : Lays base p p' start stop) :
    p'.automaton.Passes start stop :=
  (h.owns start h.start_ge h.start_lt).passes (h.owns stop h.stop_ge h.stop_lt)

/-! Steps. -/

theorem Yields.and {α : Type} {x : Step α} {post post' : α → Blueprint → Prop}
    (h : Yields x p post) (h' : Yields x p post') : Yields x p fun v p' => post v p' ∧ post' v p' :=
  fun v p' hrun => ⟨h v p' hrun, h' v p' hrun⟩

theorem yields_room (p : Blueprint) : Yields newState p fun _ _ => p.size < p.maxStates := by
  intro s p' hrun
  by_cases hfull : p.maxStates ≤ p.automaton.stateCount
  · change ((if _ then _ else _ : Step Nat).run p) = _ at hrun
    rw [if_pos hfull] at hrun
    cases hrun
  · exact Nat.lt_of_not_le hfull

@[simp] theorem size_added (p : Blueprint) (state : State) : (p.added state).size = p.size + 1 :=
  stateCount_withState ..

theorem getElem?_added (p : Blueprint) (state : State) (k : Nat) :
    (p.added state).automaton.states[k]? =
      if k = p.size then some state else p.automaton.states[k]? := Array.getElem?_push

/-- The states of a construction with one more state. -/
theorem getElem?_added_cases {state s : State} {k : Nat}
    (hs : (p.added state).automaton.states[k]? = some s) :
    k < p.size ∧ p.automaton.states[k]? = some s ∨ k = p.size ∧ s = state := by
  rw [getElem?_added] at hs
  split at hs
  · rename_i hk
    exact .inr ⟨hk, (Option.some.inj hs).symm⟩
  · exact .inl ⟨(Array.getElem?_eq_some_iff.mp hs).1, hs⟩

/-- A state with the next number is added. -/
theorem Sound.added (h : p.Sound base) (hroom : p.size < p.maxStates) {state : State}
    (hid : state.id = p.nextId) (htransitions : state.transitions = [])
    (hbody : ∀ b, state.action.bind Action.body? = some b → b < p.size) :
    Continues base p (p.added state) := by
  refine ⟨⟨h.kind_eq, ?_, ?_, ?_, fun k s hs => ?_⟩, grows_withState _ _, by simp, rfl⟩
  · rw [size_added, List.range_succ, List.map_append, ← h.ids_eq]
    simp [Blueprint.added, withState, hid, h.nextId_eq]
  · rw [size_added]
    simp [Blueprint.added, h.nextId_eq, UInt32.add_assoc]
  · rw [size_added]
    exact hroom
  · rw [size_added]
    by_cases hk : k = p.size
    · have hs : some state = some s := by
        rw [← hs, hk]
        simp [Blueprint.added, withState, size, stateCount]
      cases hs
      refine ⟨?_, ?_, fun b hb => Nat.lt_succ_of_lt (hbody b hb)⟩
      · rw [htransitions]
        exact fun t ht => absurd ht List.not_mem_nil
      · rw [htransitions]
        exact fun t ht => absurd ht List.not_mem_nil
    · have hs : p.automaton.states[k]? = some s := by
        rw [← hs, Blueprint.added, withState, Array.getElem?_push]
        exact (if_neg hk).symm
      have hfits := h.fits k s hs
      exact ⟨hfits.source_eq, fun t ht => Nat.lt_succ_of_lt (hfits.target_lt t ht),
        fun b hb => Nat.lt_succ_of_lt (hfits.body_lt b hb)⟩

/-- One state makes a fragment. -/
theorem Continues.lays {state : State} (h : Continues base p (p.added state)) :
    Lays base p (p.added state) p.size p.size := by
  refine ⟨h, Nat.le_refl _, by simp, Nat.le_refl _, by simp, fun s hs hlt => ?_⟩
  obtain rfl : s = p.size := by
    rw [size_added] at hlt
    omega
  exact .of_passes (.refl ..) (.refl ..)

/-- A state is added, and what it does is said at once. -/
theorem yields_placed (f : State → State) (p : Blueprint) :
    Yields (do
      let s ← newState
      change s f
      pure s) p fun s p' => s = p.size ∧ p' = p.added (f (.new p.nextId false)) ∧
        p.size < p.maxStates := by
  refine yields_bind ((yields_added p).and (yields_room p)) fun s p₁ hadded => ?_
  obtain ⟨⟨rfl, rfl⟩, hroom⟩ := hadded
  intro s p₂ hrun
  cases hrun
  exact ⟨rfl, by simp only [Blueprint.added, modifyState_withState], hroom⟩

theorem lays_newState (h : p.Sound base) :
    Yields newState p fun s p' => Lays base p p' s s := by
  intro s p' hrun
  obtain ⟨⟨rfl, rfl⟩, hroom⟩ := (yields_added p).and (yields_room p) s p' hrun
  exact (h.added hroom rfl rfl (by simp [State.new])).lays

theorem lays_markedState (h : p.Sound base) (marks : Marks) :
    Yields (markedState marks) p fun s p' => Lays base p p' s s ∧
      (marks.contains .bodyEnd = true → p'.automaton.IsLive s) := by
  intro s p' hrun
  obtain ⟨rfl, rfl, hroom⟩ := yields_placed (fun state => { state with marks := marks }) p s p' hrun
  refine ⟨(h.added hroom rfl rfl (by simp [State.new])).lays, fun hmarks => ?_⟩
  refine ⟨p.size, { State.new p.nextId false with marks := marks }, .refl, ?_, ?_⟩
  · simp [Blueprint.added, withState, size, stateCount]
  · simp [isFinal, hmarks]

/-- A construction with one state changed. -/
def changed (p : Blueprint) (index : Nat) (f : State → State) : Blueprint :=
  { p with automaton := p.automaton.modifyState index f }

@[simp] theorem size_changed (p : Blueprint) (index : Nat) (f : State → State) :
    (p.changed index f).size = p.size :=
  stateCount_modifyState ..

theorem getElem?_changed (p : Blueprint) (index k : Nat) (f : State → State) :
    (p.changed index f).automaton.states[k]? =
      if index = k then p.automaton.states[k]?.map f else p.automaton.states[k]? :=
  Array.getElem?_modify

theorem getElem?_changed_cases {index k : Nat} {f : State → State} {s : State}
    (hs : (p.changed index f).automaton.states[k]? = some s) :
    ∃ before, p.automaton.states[k]? = some before ∧ (s = before ∨ k = index ∧ s = f before) := by
  rw [getElem?_changed] at hs
  split at hs
  · rename_i hk
    obtain ⟨before, hbefore, rfl⟩ := Option.map_eq_some_iff.mp hs
    exact ⟨before, hbefore, .inr ⟨hk.symm, rfl⟩⟩
  · exact ⟨s, hs, .inl rfl⟩

/-- A state may get more transitions and marks. -/
theorem Sound.changed (h : p.Sound base) {index : Nat} {f : State → State}
    (hid : ∀ state, (f state).id = state.id) (hgrows : ∀ state : State, state.Grows (f state))
    (hfits : ∀ state : State, state.FitsAt p.size index → (f state).FitsAt p.size index) :
    Continues base p (p.changed index f) := by
  refine ⟨⟨h.kind_eq, ?_, ?_, ?_, fun k s hs => ?_⟩, grows_modifyState _ _ hgrows, by simp, rfl⟩
  · rw [size_changed, ← h.ids_eq]
    exact ids_modifyState _ _ hid
  · rw [size_changed]
    exact h.nextId_eq
  · rw [size_changed]
    exact h.size_le
  · rw [size_changed]
    rw [Blueprint.changed, modifyState, Array.getElem?_modify] at hs
    split at hs
    · rename_i hk
      obtain ⟨state, hstate, rfl⟩ := Option.map_eq_some_iff.mp hs
      exact hk ▸ hfits state (hk ▸ h.fits k state hstate)
    · exact h.fits k s hs

/-- A state leads to another one from now on. -/
structure Links (base : UInt32) (p p' : Blueprint) (s t : Nat) : Prop
    extends Continues base p p' where
  size_eq : p'.size = p.size
  passes : p'.automaton.Passes s t

theorem Sound.connect (h : p.Sound base) {s t : Nat} (hs : s < p.size) (ht : t < p.size)
    (label : Option Label) :
    Links base p { p with automaton := p.automaton.connect s t label 0 } s t := by
  refine ⟨h.changed (fun _ => rfl) (fun _ => ?_) fun state hfits => ?_, size_changed .., ?_⟩
  · exact ⟨fun _ he => mem_addTransition.mpr (.inr he), rfl, fun hfinal => hfinal⟩
  · refine ⟨fun e he => ?_, fun e he => ?_, hfits.body_lt⟩
    · rcases mem_addTransition.mp he with rfl | he
      · rfl
      · exact hfits.source_eq e he
    · rcases mem_addTransition.mp he with rfl | he
      · exact ht
      · exact hfits.target_lt e he
  · exact .of_mem_targets (mem_targets_connect hs label 0)

theorem links_join (h : p.Sound base) {s t : Nat} (hs : s < p.size) (ht : t < p.size) :
    Yields (join s t) p fun _ p' => Links base p p' s t :=
  yields_modify (h.connect hs ht none)

/-- A state leads into a repetition and out of it. -/
theorem links_choice (h : p.Sound base) {s inside outside : Nat} (hs : s < p.size)
    (hinside : inside < p.size) (houtside : outside < p.size) (greedy : Bool) :
    Yields (choice s inside outside greedy) p fun _ p' =>
      Links base p p' s inside ∧ Links base p p' s outside := by
  have htwo {t u : Nat} (ht : t < p.size) (hu : u < p.size) :
      Yields (do join s t; join s u) p fun _ p' => Links base p p' s t ∧ Links base p p' s u := by
    refine yields_bind (links_join h hs ht) fun _ p₁ hlinks₁ => ?_
    have hsize := hlinks₁.size_eq
    intro _ p₂ hrun
    have hlinks₂ := links_join hlinks₁.sound (hsize ▸ hs) (hsize ▸ hu) _ p₂ hrun
    have hcontinues := hlinks₁.toContinues.trans hlinks₂.toContinues
    exact ⟨⟨hcontinues, hlinks₂.size_eq.trans hsize, hlinks₂.grows.passes hlinks₁.passes⟩,
      ⟨hcontinues, hlinks₂.size_eq.trans hsize, hlinks₂.passes⟩⟩
  cases greedy with
  | true => exact htwo hinside houtside
  | false => exact fun v p' hrun => (htwo houtside hinside v p' hrun).symm

end Blueprint

end RegexEngine
