import RegexEngine.Proofs.Automaton.Language
import RegexEngine.Proofs.Automaton.Layout

/-!
Automata that are built by hand. A session is a sequence of calls, with any arguments and in any
order, on an automaton that was empty in the beginning; states of other automata, which are told
apart by the same counter, may be made in between. Whatever is called, the automaton passes the
integrity check, and the transitions of each state stand in the order of their priorities. A call
that fails changes nothing but the last error.

`Orderly` is what each call preserves. Up to the first simplification more can be said: among the
transitions of one priority the order is that of insertion.
-/

namespace RegexEngine

namespace State

/-- Transitions stand in the order of their priorities, the highest first. -/
def Descends (s : State) : Prop := s.transitions.Pairwise fun t u => u.priority ≤ t.priority

/-- What follows the transitions of a priority and of higher ones has a lower priority. -/
theorem lt_of_mem_dropWhile {ts : List Transition} {p : Int}
    (h : ts.Pairwise fun t u => u.priority ≤ t.priority) {u : Transition}
    (hu : u ∈ ts.dropWhile fun t => p ≤ t.priority) : u.priority < p := by
  induction ts with
  | nil => cases hu
  | cons t rest ih =>
    obtain ⟨hfirst, hrest⟩ := List.pairwise_cons.mp h
    rw [List.dropWhile_cons] at hu
    split at hu
    · exact ih hrest hu
    · rename_i hless
      have hless : t.priority < p := by simpa using hless
      rcases List.mem_cons.mp hu with rfl | hu
      · exact hless
      · exact Int.lt_of_le_of_lt (hfirst u hu) hless

/-- A transition is put after those of the same priority and of higher ones. -/
theorem Descends.addTransition {s : State} (h : s.Descends) (t : Transition) :
    (s.addTransition t).Descends := by
  have hbefore : ∀ e ∈ s.transitions.takeWhile (fun e => t.priority ≤ e.priority),
      t.priority ≤ e.priority := fun e he => by simpa using List.mem_takeWhile_imp he
  have hafter : ∀ e ∈ s.transitions.dropWhile (fun e => t.priority ≤ e.priority),
      e.priority < t.priority := fun _ => lt_of_mem_dropWhile h
  unfold Descends State.addTransition
  dsimp only
  refine List.pairwise_append.mpr ⟨h.sublist (List.takeWhile_sublist _),
    List.pairwise_cons.mpr ⟨fun e he => Int.le_of_lt (hafter e he),
      h.sublist (List.dropWhile_sublist _)⟩, fun e he u hu => ?_⟩
  rcases List.mem_cons.mp hu with rfl | hu
  · exact hbefore e he
  · exact Int.le_trans (Int.le_of_lt (hafter u hu)) (hbefore e he)

/-- A transition comes last among those of its priority, and leaves the others where they are. -/
theorem Descends.filter_addTransition {s : State} (h : s.Descends) (t : Transition) (p : Int) :
    (s.addTransition t).transitions.filter (·.priority = p) =
      s.transitions.filter (·.priority = p) ++ [t].filter (·.priority = p) := by
  have hsplit := List.takeWhile_append_dropWhile (l := s.transitions)
    (p := fun e => decide (t.priority ≤ e.priority))
  unfold State.addTransition
  dsimp only
  by_cases hp : t.priority = p
  · have hnone : (s.transitions.dropWhile fun e => t.priority ≤ e.priority).filter
        (·.priority = p) = [] := by
      refine List.filter_eq_nil_iff.mpr fun e he => ?_
      have hless := lt_of_mem_dropWhile h he
      simpa using by omega
    rw [List.filter_append, List.filter_cons_of_pos (by simpa using hp), hnone,
      List.filter_cons_of_pos (by simpa using hp), List.filter_nil]
    conv_rhs => rw [← hsplit, List.filter_append, hnone, List.append_nil]
  · rw [List.filter_append, List.filter_cons_of_neg (by simpa using hp),
      List.filter_cons_of_neg (by simpa using hp), List.filter_nil, List.append_nil,
      ← List.filter_append, hsplit]

/-- A state was cut from another one: it is told apart by the same number, and of the transitions
some were left out and none was moved past another. -/
structure CutFrom (s' s : State) : Prop where
  id_eq : s'.id = s.id
  priorities : (s'.transitions.map (·.priority)).Sublist (s.transitions.map (·.priority))

theorem CutFrom.refl (s : State) : s.CutFrom s := ⟨rfl, .refl _⟩

theorem CutFrom.trans {s s' s'' : State} (h' : s''.CutFrom s') (h : s'.CutFrom s) :
    s''.CutFrom s :=
  ⟨h'.id_eq.trans h.id_eq, h'.priorities.trans h.priorities⟩

theorem CutFrom.descends {s s' : State} (hcut : s'.CutFrom s) (h : s.Descends) : s'.Descends := by
  have hpriorities : (s.transitions.map (·.priority)).Pairwise fun p q => q ≤ p :=
    List.pairwise_map.mpr h
  exact List.pairwise_map.mp (hpriorities.sublist hcut.priorities)

end State

namespace Automaton

variable {a b : Automaton}

/-! What simplifying leaves of the states. -/

/-- Every state of an automaton was cut from one of another. -/
def CutFrom (b a : Automaton) : Prop := ∀ s' ∈ b.states, ∃ s ∈ a.states, s'.CutFrom s

theorem CutFrom.refl (a : Automaton) : a.CutFrom a := fun s hs => ⟨s, hs, .refl s⟩

theorem CutFrom.trans {c : Automaton} (h' : c.CutFrom b) (h : b.CutFrom a) : c.CutFrom a := by
  intro s'' hs''
  obtain ⟨s', hs', hcut'⟩ := h' s'' hs''
  obtain ⟨s, hs, hcut⟩ := h s' hs'
  exact ⟨s, hs, hcut'.trans hcut⟩

theorem cutFrom_retainOnly (a : Automaton) (kept : List Nat) : (a.retainOnly kept).2.CutFrom a := by
  unfold retainOnly
  dsimp only
  split
  · exact .refl a
  · intro s' hs'
    obtain ⟨i, hi⟩ := Array.mem_iff_getElem?.mp hs'
    obtain ⟨s, state, _, hstate, rfl⟩ := getElem?_retain.mp hi
    exact ⟨state, Array.mem_of_getElem? hstate, rfl, map_moved_sublist (fun _ _ _ => rfl) ..⟩

theorem cutFrom_mapStates {f : State → State} (hf : ∀ s, (f s).CutFrom s)
    (initial current : Option Nat) : (a.mapStates f initial current).CutFrom a := by
  intro s' hs'
  obtain ⟨s, hs, rfl⟩ := Array.mem_map.mp hs'
  exact ⟨s, hs, hf s⟩

theorem cutFrom_mergeTransitions (a : Automaton) : a.mergeTransitions.2.CutFrom a := by
  refine cutFrom_mapStates (f := merged) (fun s => ⟨?_, ?_⟩) a.initial a.current
  · unfold merged
    split <;> rfl
  · exact (merged_transitions_sublist s).map _

theorem cutFrom_bypassForwarders (hwf : a.WellFormed) {i : Nat} (hi : a.initial = some i) :
    a.bypassForwarders.2.CutFrom a := by
  obtain ⟨current, heq, _⟩ := bypassForwarders_eq hwf hi
  rw [heq]
  refine cutFrom_mapStates (f := a.bypassed) (fun s => ⟨rfl, ?_⟩) _ _
  simp [bypassed, Function.comp_def]

theorem cutFrom_simplifyOnce (hwf : a.WellFormed) {i : Nat} (hi : a.initial = some i) :
    a.simplifyOnce.2.CutFrom a := by
  have hfirst := restates_removeUnreachable hwf hi
  obtain ⟨j, hj⟩ := hfirst.exists_initial
  have hsecond := restates_removeDead hfirst.wellFormed hj
  obtain ⟨k, hk⟩ := hsecond.exists_initial
  have hthird := restates_mergeTransitions hsecond.wellFormed hk
  obtain ⟨l, hl⟩ := hthird.exists_initial
  exact (((cutFrom_bypassForwarders hthird.wellFormed hl).trans (cutFrom_mergeTransitions _)).trans
    (cutFrom_retainOnly _ _)).trans (cutFrom_retainOnly _ _)

theorem cutFrom_simplifyFully (fuel : Nat) (hwf : a.WellFormed) {i : Nat}
    (hi : a.initial = some i) : (simplifyFully fuel a).CutFrom a :=
  simplifyFully_keeps (fun _ _ hwf hi h => (cutFrom_simplifyOnce hwf hi).trans h) fuel hwf hi
    (.refl a)

/-! Calls. -/

/-- A setting of one attribute of a state. -/
inductive Setting
  | accepting (accepting : Bool)
  | note (note : Option String)
  | marks (marks : Marks)
  | addMarks (marks : Marks)
  | groupName (name : Option String)
  | openGroup (index : Nat)
  | closeGroup (index : Nat)
  | action (action : Option Action)

/-- What a setting makes of a state. -/
def Setting.apply : Setting → State → State
  | .accepting value, s => { s with accepting := value }
  | .note text, s => { s with note := text }
  | .marks bits, s => { s with marks := bits }
  | .addMarks bits, s => { s with marks := s.marks.union bits }
  | .groupName name, s => { s with groupName := name }
  | .openGroup index, s => s.openGroup index
  | .closeGroup index, s => s.closeGroup index
  | .action value, s => { s with action := value }

/-- A call of the interface. An accepting state is a state that is created as one, and a transition
without input is one without a text. -/
inductive Call
  | createState (accepting : Bool)
  | addTransition (source target : Nat) (text : Option String) (priority : Int)
  | setInitial (index : Nat)
  | setCurrent (index : Nat)
  | step (c : Char)
  | reset
  | optimize
  | set (index : Nat) (setting : Setting)
  /-- Makes a state of another automaton. -/
  | elsewhere

namespace Call

/-- Makes a call: whether it succeeds, and what becomes of the automaton. -/
def perform (call : Call) (a : Automaton) : Fresh (Bool × Automaton) :=
  match call with
  | createState accepting => do
    let (_, a) ← a.createState accepting
    pure (true, a)
  | addTransition source target text priority =>
    let (result, a) := a.addTransition source target text priority
    pure (result.isOk, a)
  | setInitial index =>
    let (result, a) := a.setInitial index
    pure (result.isOk, a)
  | setCurrent index =>
    let (result, a) := a.setCurrent index
    pure (result.isOk, a)
  | step c => pure (a.step c)
  | reset => pure (true, a.reset)
  | optimize => do
    let (result, a) ← a.optimize
    pure (result.isOk, a)
  | set index setting =>
    pure (decide (index < a.stateCount), a.modifyState index setting.apply)
  | elsewhere => do
    let _ ← freshId
    pure (true, a)

/-- The number of states that a call makes. -/
def made : Call → Nat
  | createState _ | elsewhere => 1
  | _ => 0

/-- The body of an action is inside of the automaton when the action is set. -/
def BodyInside (a : Automaton) : Call → Prop
  | set _ (.action action) => ∀ body, action.bind Action.body? = some body → body < a.stateCount
  | _ => True

/-- The transition that a call adds where it succeeds. -/
def transition? : Call → Option Transition
  | addTransition source target text priority =>
    match text.mapM Label.ofText with
    | .ok label => some ⟨source, target, label, priority⟩
    | .error _ => none
  | _ => none

end Call

/-- Calls on an automaton that was empty in the beginning, each with whether it succeeded. -/
inductive Session (start : Nat) : List (Call × Bool) → Automaton → UInt32 → Prop
  | empty : Session start [] (.empty .nfa) (UInt32.ofNat start)
  | call {trace : List (Call × Bool)} {a a' : Automaton} {nextId nextId' : UInt32}
      {succeeded : Bool} (call : Call) (h : Session start trace a nextId)
      (hbody : call.BodyInside a)
      (hrun : (call.perform a).run nextId = ((succeeded, a'), nextId')) :
      Session start (trace ++ [(call, succeeded)]) a' nextId'

/-- The number of states that calls make. -/
def madeBy : List (Call × Bool) → Nat
  | [] => 0
  | (call, _) :: rest => call.made + madeBy rest

/-- The transitions that calls added to a state, in the order of insertion. -/
def insertedFrom (source : Nat) (trace : List (Call × Bool)) : List Transition :=
  trace.filterMap fun (call, succeeded) =>
    if succeeded then call.transition?.filter (·.source = source) else none

/-! What every call preserves. -/

/-- A nondeterministic automaton that passes the integrity check, of states that were made before a
number was drawn from the counter, with transitions in the order of their priorities. -/
structure Orderly (a : Automaton) (count : Nat) : Prop where
  wellFormed : a.WellFormed
  kind_eq : a.kind = .nfa
  id_lt : ∀ s ∈ a.states, s.id.toNat < count
  descends : ∀ s ∈ a.states, s.Descends

variable {count : Nat}

theorem orderly_empty (count : Nat) : Orderly (.empty .nfa) count :=
  ⟨⟨nofun, nofun, by simp [empty], by simp [empty], nofun⟩, rfl, by simp [empty], by simp [empty]⟩

theorem Orderly.mono (h : a.Orderly count) {more : Nat} (hle : count ≤ more) : a.Orderly more :=
  ⟨h.wellFormed, h.kind_eq, fun s hs => Nat.lt_of_lt_of_le (h.id_lt s hs) hle, h.descends⟩

/-- The initial and the current state may be chosen anew. -/
theorem Orderly.of_states_eq (h : a.Orderly count) (hkind : b.kind = a.kind)
    (hstates : b.states = a.states) (hinitial : ∀ s, b.initial = some s → s < a.stateCount)
    (hcurrent : ∀ s, b.current = some s → s < a.stateCount) : b.Orderly count := by
  have hcount : b.stateCount = a.stateCount := congrArg Array.size hstates
  refine ⟨⟨hcount ▸ hinitial, hcount ▸ hcurrent, ?_, hstates ▸ h.wellFormed.distinct, ?_⟩,
    hkind.trans h.kind_eq, hstates ▸ h.id_lt, hstates ▸ h.descends⟩
  · rw [hcount, hstates]
    exact h.wellFormed.fits
  · rw [hkind, hstates]
    exact h.wellFormed.takes_input

/-- A new state may be added that no state is mistaken for. -/
theorem WellFormed.withState (h : a.WellFormed) (hkind : a.kind = .nfa) {id : UInt32}
    (hfresh : ∀ s ∈ a.states, s.id ≠ id) (accepting : Bool) :
    (a.withState (.new id accepting)).WellFormed := by
  refine ⟨?_, ?_, ?_, ?_, ?_⟩
  · intro s hs
    rw [stateCount_withState]
    exact Nat.lt_succ_of_lt (h.initial_lt s hs)
  · intro s hs
    rw [stateCount_withState]
    exact Nat.lt_succ_of_lt (h.current_lt s hs)
  · intro index s hs
    rw [stateCount_withState]
    rw [Automaton.withState, Array.getElem?_push] at hs
    split at hs
    · cases hs
      exact ⟨by simp [State.new], by simp [State.new], by simp [State.new]⟩
    · have hfits := h.fits index s hs
      exact ⟨hfits.source_eq, fun t ht => Nat.lt_succ_of_lt (hfits.target_lt t ht),
        fun body hbody => Nat.lt_succ_of_lt (hfits.body_lt body hbody)⟩
  · rw [Automaton.withState, Array.toList_push, List.map_append, List.nodup_append]
    refine ⟨h.distinct, List.nodup_singleton _, fun number hmember other hother heq => ?_⟩
    obtain ⟨s, hs, rfl⟩ := List.mem_map.mp hmember
    obtain rfl := List.mem_singleton.mp hother
    exact hfresh s (Array.mem_toList_iff.mp hs) heq
  · intro hdfa
    exact absurd (hkind.symm.trans hdfa) (by decide)

/-- A state may be changed, if what is made of it fits in its place. -/
theorem WellFormed.modifyState (h : a.WellFormed) (hkind : a.kind = .nfa) {index : Nat}
    {f : State → State} (hid : ∀ s, (f s).id = s.id)
    (hfits : ∀ s, s.FitsAt a.stateCount index → (f s).FitsAt a.stateCount index) :
    (a.modifyState index f).WellFormed := by
  refine ⟨?_, ?_, ?_, ?_, ?_⟩
  · rw [stateCount_modifyState]
    exact h.initial_lt
  · rw [stateCount_modifyState]
    exact h.current_lt
  · intro k s' hs'
    rw [Automaton.modifyState, Array.getElem?_modify] at hs'
    rw [stateCount_modifyState]
    split at hs'
    · rename_i heq
      subst heq
      obtain ⟨s, hs, rfl⟩ := Option.map_eq_some_iff.mp hs'
      exact hfits s (h.fits index s hs)
    · exact h.fits k s' hs'
  · rw [ids_modifyState a index hid]
    exact h.distinct
  · intro hdfa
    exact absurd (hkind.symm.trans hdfa) (by decide)

/-- A state that is made has no transitions, and a number that no other state has. -/
theorem Orderly.withState (h : a.Orderly count) (hcount : count < UInt32.size)
    (accepting : Bool) :
    (a.withState (.new (UInt32.ofNat count) accepting)).Orderly (count + 1) := by
  have hid : (UInt32.ofNat count).toNat = count := by
    rw [UInt32.toNat_ofNat']
    exact Nat.mod_eq_of_lt hcount
  have hmem {s : State} (hs : s ∈ (a.withState (.new (UInt32.ofNat count) accepting)).states) :
      s ∈ a.states ∨ s = .new (UInt32.ofNat count) accepting := Array.mem_push.mp hs
  have hfresh : ∀ s ∈ a.states, s.id ≠ UInt32.ofNat count := fun s hs heq => by
    have hless := h.id_lt s hs
    rw [heq, hid] at hless
    exact Nat.lt_irrefl _ hless
  refine ⟨h.wellFormed.withState h.kind_eq hfresh accepting, h.kind_eq, ?_, ?_⟩
  · intro s hs
    rcases hmem hs with hs | rfl
    · exact Nat.lt_succ_of_lt (h.id_lt s hs)
    · exact Nat.lt_succ_of_le (Nat.le_of_eq hid)
  · intro s hs
    rcases hmem hs with hs | rfl
    · exact h.descends s hs
    · exact .nil

/-- One state may be changed. -/
theorem Orderly.modifyState (h : a.Orderly count) {index : Nat} {f : State → State}
    (hid : ∀ s, (f s).id = s.id)
    (hfits : ∀ s, s.FitsAt a.stateCount index → (f s).FitsAt a.stateCount index)
    (hdescends : ∀ s, s.Descends → (f s).Descends) : (a.modifyState index f).Orderly count := by
  have hmem {s' : State} (hs' : s' ∈ (a.modifyState index f).states) :
      ∃ s ∈ a.states, s' = s ∨ s' = f s := by
    obtain ⟨k, hk⟩ := Array.mem_iff_getElem?.mp hs'
    rw [Automaton.modifyState, Array.getElem?_modify] at hk
    split at hk
    · obtain ⟨s, hs, rfl⟩ := Option.map_eq_some_iff.mp hk
      exact ⟨s, Array.mem_of_getElem? hs, .inr rfl⟩
    · exact ⟨s', Array.mem_of_getElem? hk, .inl rfl⟩
  refine ⟨h.wellFormed.modifyState h.kind_eq hid hfits, h.kind_eq, ?_, ?_⟩
  · intro s' hs'
    obtain ⟨s, hs, rfl | rfl⟩ := hmem hs'
    · exact h.id_lt s' hs
    · rw [hid]
      exact h.id_lt s hs
  · intro s' hs'
    obtain ⟨s, hs, rfl | rfl⟩ := hmem hs'
    · exact h.descends s' hs
    · exact hdescends s (h.descends s hs)

theorem Orderly.connect (h : a.Orderly count) {source target : Nat}
    (htarget : target < a.stateCount) (label : Option Label) (priority : Int) :
    (a.connect source target label priority).Orderly count := by
  refine h.modifyState (fun _ => rfl) (fun s hfits => ?_) fun s hs => hs.addTransition _
  refine ⟨fun t ht => ?_, fun t ht => ?_, hfits.body_lt⟩
  · rcases mem_addTransition.mp ht with rfl | ht
    · rfl
    · exact hfits.source_eq t ht
  · rcases mem_addTransition.mp ht with rfl | ht
    · exact htarget
    · exact hfits.target_lt t ht

theorem Setting.id_apply (setting : Setting) (s : State) : (setting.apply s).id = s.id := by
  cases setting <;> rfl

theorem Setting.transitions_apply (setting : Setting) (s : State) :
    (setting.apply s).transitions = s.transitions := by
  cases setting <;> rfl

theorem Orderly.set (h : a.Orderly count) {index : Nat} {setting : Setting}
    (hbody : (Call.set index setting).BodyInside a) :
    (a.modifyState index setting.apply).Orderly count := by
  refine h.modifyState setting.id_apply (fun s hfits => ?_) fun s hs => ?_
  · refine ⟨?_, ?_, ?_⟩
    · rw [setting.transitions_apply]
      exact hfits.source_eq
    · rw [setting.transitions_apply]
      exact hfits.target_lt
    · cases setting with
      | action action => exact hbody
      | _ => exact hfits.body_lt
  · unfold State.Descends
    rw [setting.transitions_apply]
    exact hs

/-- Simplifying succeeds, draws no number, and leaves a part of the automaton. -/
theorem Orderly.exists_optimize (h : a.Orderly count) (nextId : UInt32) :
    ∃ b, a.optimize.run nextId = ((.ok (), b), nextId) ∧ b.Orderly count := by
  cases hi : a.initial with
  | none =>
    refine ⟨a, ?_, h⟩
    unfold Automaton.optimize
    rw [hi]
    rfl
  | some i =>
    refine ⟨_, optimize_run_eq h.wellFormed hi h.kind_eq nextId, ?_⟩
    have hrestates := restates_simplifyFully (2 * (a.stateCount + a.transitionCount) + 2)
      h.wellFormed hi
    have hcut := cutFrom_simplifyFully (2 * (a.stateCount + a.transitionCount) + 2) h.wellFormed hi
    refine ⟨hrestates.wellFormed, hrestates.kind_eq.trans h.kind_eq, fun s' hs' => ?_,
      fun s' hs' => ?_⟩
    · obtain ⟨s, hs, hfrom⟩ := hcut s' hs'
      rw [hfrom.id_eq]
      exact h.id_lt s hs
    · obtain ⟨s, hs, hfrom⟩ := hcut s' hs'
      exact hfrom.descends (h.descends s hs)

/-- To change a state that is not there changes nothing. -/
theorem modifyState_of_le {index : Nat} (hindex : a.stateCount ≤ index) (f : State → State) :
    a.modifyState index f = a := by
  have hstates : a.states.modify index f = a.states := by
    refine Array.ext_getElem? fun k => ?_
    rw [Array.getElem?_modify]
    split
    · rename_i heq
      rw [← heq, Array.getElem?_eq_none hindex]
      rfl
    · rfl
  rw [modifyState, hstates]

/-- All that a call can do. -/
inductive Performs (a : Automaton) (nextId : UInt32) : Call → Bool → Automaton → UInt32 → Prop
  | failed {call : Call} (hmade : call.made = 0) (e : Option Error) :
      Performs a nextId call false { a with lastError := e } nextId
  | created (accepting : Bool) :
      Performs a nextId (.createState accepting) true (a.withState (.new nextId accepting))
        (nextId + 1)
  | connected {source target : Nat} {text : Option String} {label : Option Label} {priority : Int}
      (hsource : source < a.stateCount) (htarget : target < a.stateCount)
      (hlabel : text.mapM Label.ofText = .ok label) :
      Performs a nextId (.addTransition source target text priority) true
        (a.connect source target label priority) nextId
  | pointed {call : Call} {initial current : Option Nat} (hmade : call.made = 0)
      (hadds : call.transition? = none) (hinitial : ∀ s, initial = some s → s < a.stateCount)
      (hcurrent : ∀ s, current = some s → s < a.stateCount) :
      Performs a nextId call true { a with initial := initial, current := current } nextId
  | changed (index : Nat) (setting : Setting) :
      Performs a nextId (.set index setting) true (a.modifyState index setting.apply) nextId
  | simplified {left : Automaton} (hrun : a.optimize.run nextId = ((.ok (), left), nextId)) :
      Performs a nextId .optimize true left nextId
  | elsewhere : Performs a nextId .elsewhere true a (nextId + 1)

/-- A call does one of these things. -/
theorem Orderly.performs (h : a.Orderly count) {call : Call} {succeeded : Bool}
    {nextId nextId' : UInt32} (hrun : (call.perform a).run nextId = ((succeeded, b), nextId')) :
    Performs a nextId call succeeded b nextId' := by
  cases call with
  | createState accepting =>
    cases hrun
    exact .created accepting
  | addTransition source target text priority =>
    have hresult : (((a.addTransition source target text priority).1.isOk,
        (a.addTransition source target text priority).2), nextId) =
          ((succeeded, b), nextId') := hrun
    unfold Automaton.addTransition at hresult
    split at hresult
    · rename_i hsource
      split at hresult
      · rename_i htarget
        split at hresult
        · rename_i label hlabel
          cases hresult
          exact .connected hsource htarget hlabel
        · cases hresult
          exact .failed rfl _
      · cases hresult
        exact .failed rfl _
    · cases hresult
      exact .failed rfl _
  | setInitial index =>
    have hresult : (((a.setInitial index).1.isOk, (a.setInitial index).2), nextId) =
        ((succeeded, b), nextId') := hrun
    unfold Automaton.setInitial at hresult
    split at hresult
    · rename_i hlt
      cases hresult
      exact .pointed rfl rfl (fun s hs => Option.some.inj hs ▸ hlt)
        fun s hs => Option.some.inj hs ▸ hlt
    · cases hresult
      exact .failed rfl _
  | setCurrent index =>
    have hresult : (((a.setCurrent index).1.isOk, (a.setCurrent index).2), nextId) =
        ((succeeded, b), nextId') := hrun
    unfold Automaton.setCurrent at hresult
    split at hresult
    · rename_i hlt
      cases hresult
      exact .pointed rfl rfl h.wellFormed.initial_lt fun s hs => Option.some.inj hs ▸ hlt
    · cases hresult
      exact .failed rfl _
  | step c =>
    have hresult : (a.step c, nextId) = ((succeeded, b), nextId') := hrun
    unfold Automaton.step at hresult
    split at hresult
    · rename_i t ht
      cases hresult
      obtain ⟨state, hstate, hfound⟩ := Option.bind_eq_some_iff.mp ht
      obtain ⟨i, _, hi⟩ := Option.bind_eq_some_iff.mp hstate
      refine .pointed rfl rfl h.wellFormed.initial_lt fun s hs => ?_
      cases hs
      exact (h.wellFormed.fits i state hi).target_lt t (List.mem_of_find?_eq_some hfound)
    · cases hresult
      exact .failed rfl a.lastError
  | reset =>
    cases hrun
    exact .pointed rfl rfl h.wellFormed.initial_lt h.wellFormed.initial_lt
  | optimize =>
    obtain ⟨left, hleft, _⟩ := h.exists_optimize nextId
    rw [Call.perform, StateT.run_bind, hleft] at hrun
    cases hrun
    exact .simplified hleft
  | set index setting =>
    have hresult : ((decide (index < a.stateCount), a.modifyState index setting.apply), nextId) =
        ((succeeded, b), nextId') := hrun
    by_cases hlt : index < a.stateCount
    · rw [decide_eq_true hlt] at hresult
      cases hresult
      exact .changed index setting
    · rw [decide_eq_false hlt, modifyState_of_le (Nat.le_of_not_lt hlt)] at hresult
      cases hresult
      exact .failed rfl a.lastError
  | elsewhere =>
    cases hrun
    exact .elsewhere

/-- Every call preserves it. Numbers are drawn for the states that are made. -/
theorem Orderly.perform (h : a.Orderly count) {call : Call} (hbody : call.BodyInside a)
    (hcount : count + call.made < UInt32.size) {succeeded : Bool} {nextId' : UInt32}
    (hrun : (call.perform a).run (UInt32.ofNat count) = ((succeeded, b), nextId')) :
    nextId' = UInt32.ofNat (count + call.made) ∧ b.Orderly (count + call.made) := by
  have hnext : UInt32.ofNat count + 1 = UInt32.ofNat (count + 1) := (UInt32.ofNat_add ..).symm
  cases h.performs hrun with
  | failed hmade e =>
    rw [hmade]
    exact ⟨rfl, h.of_states_eq rfl rfl h.wellFormed.initial_lt h.wellFormed.current_lt⟩
  | created accepting => exact ⟨hnext, h.withState (Nat.lt_of_succ_lt hcount) accepting⟩
  | connected _ htarget _ => exact ⟨rfl, h.connect htarget _ _⟩
  | pointed hmade _ hinitial hcurrent =>
    rw [hmade]
    exact ⟨rfl, h.of_states_eq rfl rfl hinitial hcurrent⟩
  | changed index setting => exact ⟨rfl, h.set hbody⟩
  | simplified hleft =>
    obtain ⟨left, hleft', horderly⟩ := h.exists_optimize (UInt32.ofNat count)
    cases hleft.symm.trans hleft'
    exact ⟨rfl, horderly⟩
  | elsewhere => exact ⟨hnext, h.mono (Nat.le_succ count)⟩

/-- A call that fails changes nothing but the last error. -/
theorem Orderly.eq_of_failed (h : a.Orderly count) {call : Call} {nextId nextId' : UInt32}
    (hrun : (call.perform a).run nextId = ((false, b), nextId')) :
    b = { a with lastError := b.lastError } ∧ nextId' = nextId := by
  cases h.performs hrun with
  | failed _ e => exact ⟨rfl, rfl⟩

/-! Transitions of one priority. -/

/-- The transitions that each state has of a priority are those that were inserted, in their order.
-/
structure Logged (trace : List (Call × Bool)) (a : Automaton) : Prop where
  listed : ∀ (source : Nat) (s : State), a.states[source]? = some s → ∀ p,
    s.transitions.filter (·.priority = p) = (insertedFrom source trace).filter (·.priority = p)
  beyond : ∀ source, a.stateCount ≤ source → insertedFrom source trace = []

theorem insertedFrom_append (source : Nat) (trace others : List (Call × Bool)) :
    insertedFrom source (trace ++ others) =
      insertedFrom source trace ++ insertedFrom source others :=
  List.filterMap_append

/-- A call that adds no transition may change everything else of the states. -/
theorem Logged.of_transitions {trace : List (Call × Bool)} (h : Logged trace a)
    {entry : Call × Bool} (hnone : ∀ source, insertedFrom source [entry] = [])
    (hcount : b.stateCount = a.stateCount)
    (hkept : ∀ (k : Nat) (s' : State), b.states[k]? = some s' →
      ∃ s, a.states[k]? = some s ∧ s'.transitions = s.transitions) :
    Logged (trace ++ [entry]) b := by
  refine ⟨fun source s' hs' p => ?_, fun source hsource => ?_⟩
  · obtain ⟨s, hs, htransitions⟩ := hkept source s' hs'
    rw [insertedFrom_append, hnone, List.append_nil, htransitions]
    exact h.listed source s hs p
  · rw [insertedFrom_append, hnone, List.append_nil]
    exact h.beyond source (hcount ▸ hsource)

theorem Logged.of_states_eq {trace : List (Call × Bool)} (h : Logged trace a)
    {entry : Call × Bool} (hnone : ∀ source, insertedFrom source [entry] = [])
    (hstates : b.states = a.states) : Logged (trace ++ [entry]) b :=
  h.of_transitions hnone (congrArg Array.size hstates) fun _ s' hs' => ⟨s', hstates ▸ hs', rfl⟩

theorem Logged.withState {trace : List (Call × Bool)} (h : Logged trace a) {entry : Call × Bool}
    (hnone : ∀ source, insertedFrom source [entry] = []) {s : State} (hs : s.transitions = []) :
    Logged (trace ++ [entry]) (a.withState s) := by
  refine ⟨fun source s' hs' p => ?_, fun source hsource => ?_⟩
  · rw [insertedFrom_append, hnone, List.append_nil]
    rw [Automaton.withState, Array.getElem?_push] at hs'
    split at hs'
    · rename_i heq
      cases hs'
      rw [hs, h.beyond source (Nat.le_of_eq heq.symm)]
    · exact h.listed source s' hs' p
  · rw [insertedFrom_append, hnone, List.append_nil]
    rw [stateCount_withState] at hsource
    exact h.beyond source (Nat.le_of_succ_le hsource)

/-- A transition is inserted after those of its priority. -/
theorem Logged.connect {trace : List (Call × Bool)} (h : Logged trace a)
    (horderly : a.Orderly count) {source target : Nat} (hsource : source < a.stateCount)
    {text : Option String} {label : Option Label} (hlabel : text.mapM Label.ofText = .ok label)
    (priority : Int) :
    Logged (trace ++ [(.addTransition source target text priority, true)])
      (a.connect source target label priority) := by
  have hinserted (other : Nat) :
      insertedFrom other [(.addTransition source target text priority, true)] =
        if source = other then [⟨source, target, label, priority⟩] else [] := by
    have htransition : (Call.addTransition source target text priority).transition? =
        some ⟨source, target, label, priority⟩ := by
      simp only [Call.transition?, hlabel]
    by_cases heq : source = other
    · subst heq
      simp [insertedFrom, htransition, Option.filter_some]
    · simp [insertedFrom, htransition, heq]
  refine ⟨fun other s' hs' p => ?_, fun other hother => ?_⟩
  · rw [insertedFrom_append, hinserted, List.filter_append]
    rw [Automaton.connect, modifyState, Array.getElem?_modify] at hs'
    split at hs'
    · rename_i heq
      obtain ⟨s, hs, rfl⟩ := Option.map_eq_some_iff.mp hs'
      rw [if_pos heq, (horderly.descends s (Array.mem_of_getElem? hs)).filter_addTransition,
        h.listed other s hs]
    · rename_i hne
      rw [if_neg hne, List.filter_nil, List.append_nil]
      exact h.listed other s' hs' p
  · rw [stateCount_connect] at hother
    rw [insertedFrom_append, hinserted, if_neg (by omega), List.append_nil]
    exact h.beyond other hother

/-- Every call but one that simplifies the automaton keeps what is known of insertion. -/
theorem Logged.perform {trace : List (Call × Bool)} (h : Logged trace a)
    (horderly : a.Orderly count) {call : Call} (hcall : call ≠ .optimize) {succeeded : Bool}
    {nextId nextId' : UInt32} (hrun : (call.perform a).run nextId = ((succeeded, b), nextId')) :
    Logged (trace ++ [(call, succeeded)]) b := by
  cases horderly.performs hrun with
  | failed _ e => exact h.of_states_eq (fun _ => rfl) rfl
  | created accepting => exact h.withState (fun _ => rfl) rfl
  | connected hsource _ hlabel => exact h.connect horderly hsource hlabel _
  | pointed _ hadds _ _ => exact h.of_states_eq (fun _ => by simp [insertedFrom, hadds]) rfl
  | changed index setting =>
    refine h.of_transitions (fun _ => rfl) (stateCount_modifyState ..) fun k s' hs' => ?_
    rw [modifyState, Array.getElem?_modify] at hs'
    split at hs'
    · obtain ⟨s, hs, rfl⟩ := Option.map_eq_some_iff.mp hs'
      exact ⟨s, hs, setting.transitions_apply s⟩
    · exact ⟨s', hs', rfl⟩
  | simplified _ => exact absurd rfl hcall
  | elsewhere => exact h.of_states_eq (fun _ => rfl) rfl

/-! Sessions. -/

theorem madeBy_append (trace : List (Call × Bool)) (call : Call) (succeeded : Bool) :
    madeBy (trace ++ [(call, succeeded)]) = madeBy trace + call.made := by
  induction trace with
  | nil => simp [madeBy]
  | cons entry rest ih => simp [madeBy, ih, Nat.add_assoc]

/-- The counter has moved on by the states that were made, and the automaton is in order. -/
theorem Session.orderly {start : Nat} {trace : List (Call × Bool)} {nextId : UInt32}
    (h : Session start trace a nextId) (hcount : start + madeBy trace < UInt32.size) :
    nextId = UInt32.ofNat (start + madeBy trace) ∧ a.Orderly (start + madeBy trace) := by
  induction h with
  | empty => exact ⟨rfl, orderly_empty _⟩
  | call _ _ hbody hrun ih =>
    rw [madeBy_append, ← Nat.add_assoc] at hcount ⊢
    obtain ⟨rfl, horderly⟩ := ih (Nat.lt_of_le_of_lt (Nat.le_add_right ..) hcount)
    exact horderly.perform hbody hcount hrun

theorem Session.logged {start : Nat} {trace : List (Call × Bool)} {nextId : UInt32}
    (h : Session start trace a nextId) (hcount : start + madeBy trace < UInt32.size)
    (hcalls : ∀ entry ∈ trace, entry.1 ≠ .optimize) : Logged trace a := by
  induction h with
  | empty => exact ⟨by simp [Automaton.empty], fun _ _ => rfl⟩
  | call _ hsession _ hrun ih =>
    rw [madeBy_append, ← Nat.add_assoc] at hcount
    have hless := Nat.lt_of_le_of_lt (Nat.le_add_right ..) hcount
    have hbefore := ih hless fun entry hentry => hcalls entry (List.mem_append_left _ hentry)
    exact hbefore.perform (hsession.orderly hless).2
      (hcalls _ (List.mem_append_right _ (List.mem_singleton_self _))) hrun

/-- Whatever is called, as long as there are identifiers for all states that are made, the automaton
passes the integrity check and the transitions of each state stand in the order of their
priorities. Up to the first simplification those of one priority stand in the order of insertion. A
call that fails then changes nothing but the last error, and draws no identifier. -/
theorem checkIntegrity_of_session {start : Nat} {trace : List (Call × Bool)} {nextId : UInt32}
    (h : Session start trace a nextId) (hcount : start + madeBy trace < UInt32.size) :
    a.checkIntegrity = .ok () ∧
    (∀ s ∈ a.states, s.transitions.Pairwise fun t u => u.priority ≤ t.priority) ∧
    ((∀ entry ∈ trace, entry.1 ≠ .optimize) →
      ∀ (source : Nat) (s : State), a.states[source]? = some s → ∀ p,
        s.transitions.filter (·.priority = p) =
          (insertedFrom source trace).filter (·.priority = p)) ∧
    ∀ (call : Call) (a' : Automaton) (nextId' : UInt32),
      (call.perform a).run nextId = ((false, a'), nextId') →
        a' = { a with lastError := a'.lastError } ∧ nextId' = nextId := by
  obtain ⟨_, horderly⟩ := h.orderly hcount
  exact ⟨(checkIntegrity_iff a).mpr horderly.wellFormed, horderly.descends,
    fun hcalls => (h.logged hcount hcalls).listed, fun _ _ _ => horderly.eq_of_failed⟩

/-- Two states, and two transitions between them. -/
private def pair (text : Label) : Automaton :=
  { empty .nfa with
    states := #[
      { State.new 5 false with transitions := [⟨0, 1, some text, 2⟩, ⟨0, 1, none, -1⟩] },
      .new 7 true] }

/-- The automaton whose initial state was chosen at the second attempt. -/
private def pointed (text : Label) : Automaton :=
  { pair text with
    initial := some 0
    current := some 0
    lastError := some ((pair text).indexError 7) }

/-- The transition that is inserted last goes first. A call fails, and in the end the automaton is
simplified. -/
private def shortTrace : List (Call × Bool) :=
  [(.createState false, true), (.elsewhere, true), (.createState true, true),
    (.addTransition 0 1 none (-1), true), (.addTransition 0 1 (some "b") 2, true),
    (.setInitial 7, false), (.setInitial 0, true), (.optimize, true)]

private theorem session_pointed : ∃ text, Session 5 (shortTrace.take 7) (pointed text) 8 := by
  have hmade : Session 5 (shortTrace.take 3)
      { empty .nfa with states := #[.new 5 false, .new 7 true] } 8 :=
    .call (.createState true) (.call .elsewhere (.call (.createState false) .empty trivial rfl)
      trivial rfl) trivial rfl
  obtain ⟨text, htext⟩ : ∃ text, Label.ofText "b" = .ok text := ⟨_, rfl⟩
  have hconnected : Session 5 (shortTrace.take 5) (pair text) 8 := by
    refine .call (.addTransition 0 1 (some "b") 2)
      (.call (.addTransition 0 1 none (-1)) hmade trivial rfl) trivial ?_
    rw [Call.perform, Automaton.addTransition, Option.mapM_some, htext]
    rfl
  exact ⟨text, .call (.setInitial 0) (.call (.setInitial 7) hconnected trivial rfl) trivial rfl⟩

private theorem session_shortTrace : ∃ a, Session 5 shortTrace a 8 := by
  obtain ⟨text, hpointed⟩ := session_pointed
  obtain ⟨_, horderly⟩ := hpointed.orderly (by decide)
  obtain ⟨left, hleft, _⟩ := horderly.exists_optimize 8
  refine ⟨left, .call .optimize hpointed trivial ?_⟩
  rw [Call.perform, StateT.run_bind, hleft]
  rfl

theorem checkIntegrity_of_session_shortTrace :
    (∃ a, Session 5 (shortTrace.take 7) a 8 ∧ 5 + madeBy (shortTrace.take 7) < UInt32.size ∧
      (∀ (source : Nat) (s : State), a.states[source]? = some s → ∀ p,
        s.transitions.filter (·.priority = p) =
          (insertedFrom source (shortTrace.take 7)).filter (·.priority = p)) ∧
      ∃ a', ((Call.setCurrent 2).perform a).run 8 = ((false, a'), 8) ∧
        a' = { a with lastError := a'.lastError }) ∧
    ∃ a, Session 5 shortTrace a 8 ∧ 5 + madeBy shortTrace < UInt32.size ∧
      a.checkIntegrity = .ok () ∧
      (∀ s ∈ a.states, s.transitions.Pairwise fun t u => u.priority ≤ t.priority) ∧
      ∀ (call : Call) (a' : Automaton) (nextId' : UInt32),
        (call.perform a).run 8 = ((false, a'), nextId') →
          a' = { a with lastError := a'.lastError } ∧ nextId' = 8 := by
  constructor
  · obtain ⟨text, h⟩ := session_pointed
    obtain ⟨-, -, hlisted, hfailed⟩ := checkIntegrity_of_session h (by decide)
    exact ⟨_, h, by decide, hlisted (by simp [shortTrace]), _, rfl,
      (hfailed (.setCurrent 2) _ _ rfl).1⟩
  · obtain ⟨a, h⟩ := session_shortTrace
    obtain ⟨hcheck, hdescends, -, hfailed⟩ := checkIntegrity_of_session h (by decide)
    exact ⟨a, h, by decide, hcheck, hdescends, hfailed⟩

end Automaton

end RegexEngine
