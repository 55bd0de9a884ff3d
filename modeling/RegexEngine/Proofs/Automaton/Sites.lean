import Mathlib.Data.List.Nodup
import Mathlib.Data.List.TakeWhile
import RegexEngine.Proofs.Automaton.Bridges

/-!
Automata under construction. Most states are finished: whatever is built later leaves them alone.
The others are loose ends, which get more transitions. What a part of the construction knows about
the finished states is said of every automaton that can still come out: one that extends what is
there, and differs from it in the transitions of loose ends at most. So what was known before a part
was built is known after it, without a word about the part.
-/

namespace RegexEngine

/-- A state can be passed where another one can. -/
structure State.PassesAs (s other : State) : Prop where
  action_eq : s.action = other.action
  holdAt_eq : ∀ (input : Array Char) (i : Nat),
    s.marks.holdAt input i = other.marks.holdAt input i

namespace Automaton

/-- An automaton has the states of another one, and only loose ends may differ, in what they lead
to. -/
def Completes (a p : Automaton) (loose : List Nat) : Prop :=
  ∀ (k : Nat) (s : State), p.states[k]? = some s →
    ∃ s', a.states[k]? = some s' ∧ s'.PassesAs s ∧ (k ∉ loose → s' = s)

/-- The loose ends of an automaton under construction, with the transitions that they have so far,
and what is known of every automaton that can come out. -/
structure Site (p : Automaton) (loose : List (Nat × List Transition)) (Known : Automaton → Prop) :
    Prop where
  nodup : (loose.map Prod.fst).Nodup
  exits : ∀ w ∈ loose, p.HasExits w.1 w.2
  level : ∀ w ∈ loose, ∀ t ∈ w.2, t.priority = 0
  known : ∀ a : Automaton, a.Completes p (loose.map Prod.fst) → Known a

theorem Completes.refl (p : Automaton) (loose : List Nat) : p.Completes p loose :=
  fun _ s hs => ⟨s, hs, ⟨rfl, fun _ _ => rfl⟩, fun _ => rfl⟩

theorem HasExits.lt {p : Automaton} {s : Nat} {exits : List Transition} (h : p.HasExits s exits) :
    s < p.states.size := by
  obtain ⟨_, hstate, _⟩ := h
  exact (Array.getElem?_eq_some_iff.mp hstate).1

theorem isOpenAt_eq {a : Automaton} {input : Array Char} {k : Nat} {s s' : State}
    (hs : a.states[k]? = some s') (h : s'.PassesAs s) (i : Nat) :
    a.isOpenAt input i k = (s.marks.holdAt input i && s.action.isNone) := by
  simp only [isOpenAt, hs, h.holdAt_eq, h.action_eq]

/-- An automaton with one more state. -/
def withState (p : Automaton) (s : State) : Automaton := { p with states := p.states.push s }

namespace Site

variable {p : Automaton} {before after loose : List (Nat × List Transition)}
  {exits : List Transition} {s : Nat} {Known : Automaton → Prop}

theorem mono {Known' : Automaton → Prop} (h : Site p loose Known)
    (hknown : ∀ a, Known a → Known' a) : Site p loose Known' :=
  ⟨h.nodup, h.exits, h.level, fun a ha => hknown a (h.known a ha)⟩

theorem perm {loose' : List (Nat × List Transition)} (h : Site p loose Known)
    (hperm : loose.Perm loose') : Site p loose' Known := by
  refine ⟨(hperm.map Prod.fst).nodup_iff.mp h.nodup, fun w hw => h.exits w (hperm.mem_iff.mpr hw),
    fun w hw => h.level w (hperm.mem_iff.mpr hw), fun a ha => h.known a fun k s hs => ?_⟩
  obtain ⟨s', hs', hpasses, heq⟩ := ha k s hs
  exact ⟨s', hs', hpasses, fun hk => heq fun hmem => hk ((hperm.map Prod.fst).mem_iff.mpr hmem)⟩

/-- A new state is a loose end. -/
theorem push (h : Site p loose Known) {state : State} (htransitions : state.transitions = [])
    (haccepting : state.accepting = false) :
    Site (p.withState state) ((p.states.size, []) :: loose) fun a =>
      Known a ∧ ∃ s, a.states[p.states.size]? = some s ∧ s.PassesAs state := by
  have hnew : (p.withState state).states[p.states.size]? = some state := by
    simp [withState]
  have hold {k : Nat} {s : State} (hs : p.states[k]? = some s) :
      (p.withState state).states[k]? = some s := by
    have hk := (Array.getElem?_eq_some_iff.mp hs).1
    rw [withState, Array.getElem?_push, if_neg (Nat.ne_of_lt hk), hs]
  refine ⟨?_, fun w hw => ?_, fun w hw => ?_, fun a ha => ⟨h.known a fun k s hs => ?_, ?_⟩⟩
  · rw [List.map_cons, List.nodup_cons]
    refine ⟨fun hmem => ?_, h.nodup⟩
    obtain ⟨w, hw, hsize⟩ := List.mem_map.mp hmem
    exact Nat.lt_irrefl _ (hsize ▸ (h.exits w hw).lt)
  · rcases List.mem_cons.mp hw with rfl | hw
    · exact ⟨state, hnew, haccepting, htransitions⟩
    · obtain ⟨s, hs, hs'⟩ := h.exits w hw
      exact ⟨s, hold hs, hs'⟩
  · rcases List.mem_cons.mp hw with rfl | hw
    · exact fun t ht => absurd ht List.not_mem_nil
    · exact h.level w hw
  · obtain ⟨s', hs', hpasses, heq⟩ := ha k s (hold hs)
    refine ⟨s', hs', hpasses, fun hk => heq ?_⟩
    rw [List.map_cons, List.mem_cons, not_or]
    exact ⟨Nat.ne_of_lt (Array.getElem?_eq_some_iff.mp hs).1, hk⟩
  · obtain ⟨s', hs', hpasses, _⟩ := ha _ _ hnew
    exact ⟨s', hs', hpasses⟩

theorem map_fst (before after : List (Nat × List Transition)) (s : Nat)
    (exits : List Transition) :
    (before ++ (s, exits) :: after).map Prod.fst =
      before.map Prod.fst ++ s :: after.map Prod.fst := by
  simp

/-- A loose end is listed once. -/
theorem not_mem_others (h : Site p (before ++ (s, exits) :: after) Known) :
    s ∉ (before ++ after).map Prod.fst := by
  have hnodup := h.nodup
  rw [map_fst] at hnodup
  rw [List.map_append]
  exact (List.nodup_cons.mp (List.nodup_middle.mp hnodup)).1

/-- Changing a loose end changes nothing else. -/
theorem modify (h : Site p (before ++ (s, exits) :: after) Known) {change : State → State}
    {exits' : List Transition} (hlevel : ∀ t ∈ exits', t.priority = 0)
    (hchange : ∀ state, state.transitions = exits →
      (change state).PassesAs state ∧ (change state).accepting = state.accepting ∧
        (change state).transitions = exits') :
    Site (p.modifyState s change) (before ++ (s, exits') :: after) Known := by
  obtain ⟨state, hstate, haccepting, htransitions⟩ := h.exits (s, exits) (by simp)
  obtain ⟨hpasses, haccepts, hexits⟩ := hchange state htransitions
  have hget (k : Nat) : (p.modifyState s change).states[k]? =
      if k = s then p.states[k]?.map change else p.states[k]? := by
    rw [modifyState, Array.getElem?_modify]
    simp only [eq_comm]
  have hother {w : Nat × List Transition} (hw : w ∈ before ++ after) : w.1 ≠ s := by
    rintro rfl
    exact h.not_mem_others (List.mem_map_of_mem hw)
  have hsplit {w : Nat × List Transition} {others : List Transition}
      (hw : w ∈ before ++ (s, others) :: after) : w = (s, others) ∨ w ∈ before ++ after := by
    rw [List.mem_append, List.mem_cons] at hw
    rw [List.mem_append]
    rcases hw with hw | hw | hw
    · exact .inr (.inl hw)
    · exact .inl hw
    · exact .inr (.inr hw)
  have hkeep {w : Nat × List Transition} {others : List Transition} (hw : w ∈ before ++ after) :
      w ∈ before ++ (s, others) :: after := by
    rw [List.mem_append] at hw
    rcases hw with hw | hw
    · exact List.mem_append_left _ hw
    · exact List.mem_append_right _ (List.mem_cons_of_mem _ hw)
  refine ⟨?_, fun w hw => ?_, fun w hw => ?_, fun a ha => h.known a fun k t ht => ?_⟩
  · rw [map_fst, ← map_fst before after s exits]
    exact h.nodup
  · rcases hsplit hw with rfl | hw
    · refine ⟨change state, ?_, haccepts.trans haccepting, hexits⟩
      rw [hget, if_pos rfl, hstate]
      rfl
    · obtain ⟨t, ht, ht'⟩ := h.exits w (hkeep hw)
      refine ⟨t, ?_, ht'⟩
      rw [hget, if_neg (hother hw), ht]
  · rcases hsplit hw with rfl | hw
    · exact hlevel
    · exact h.level w (hkeep hw)
  · rw [map_fst] at ha ⊢
    by_cases hk : k = s
    · subst hk
      obtain rfl := Option.some.inj (hstate.symm.trans ht)
      obtain ⟨s', hs', hpasses', _⟩ := ha k (change state) (by rw [hget, if_pos rfl, hstate]; rfl)
      refine ⟨s', hs', ⟨hpasses'.action_eq.trans hpasses.action_eq, fun input i => ?_⟩, ?_⟩
      · rw [hpasses'.holdAt_eq, hpasses.holdAt_eq]
      · exact fun hk => absurd (List.mem_append_right _ List.mem_cons_self) hk
    · exact ha k t (by rw [hget, if_neg hk, ht])

/-- A loose end gets one more transition. -/
theorem connect (before : List (Nat × List Transition))
    (h : Site p (before ++ (s, exits) :: after) Known) (target : Nat) (label : Option Label) :
    Site (p.connect s target label 0) (before ++ (s, exits ++ [⟨s, target, label, 0⟩]) :: after)
      Known := by
  have hlevel := h.level (s, exits) (by simp)
  refine h.modify (fun t ht => ?_) fun state hstate => ⟨⟨rfl, fun _ _ => rfl⟩, rfl, ?_⟩
  · rcases List.mem_append.mp ht with ht | ht
    · exact hlevel t ht
    · rw [List.mem_singleton.mp ht]
  · have hfirst : ∀ t ∈ exits, decide ((0 : Int) ≤ t.priority) = true := by
      intro t ht
      rw [hlevel t ht]
      rfl
    rw [State.addTransition, hstate, List.takeWhile_eq_self_iff.mpr hfirst,
      List.dropWhile_eq_nil_iff.mpr hfirst]

/-- A loose end that gets nothing more is finished. -/
theorem finish (before : List (Nat × List Transition))
    (h : Site p (before ++ (s, exits) :: after) Known) :
    Site p (before ++ after) fun a => Known a ∧ a.HasExits s exits := by
  have hsub : (before ++ after).Sublist (before ++ (s, exits) :: after) :=
    (List.Sublist.refl before).append (List.sublist_cons_self _ _)
  refine ⟨h.nodup.sublist (hsub.map _), fun w hw => h.exits w (hsub.subset hw),
    fun w hw => h.level w (hsub.subset hw), fun a ha => ⟨h.known a fun k t ht => ?_, ?_⟩⟩
  · obtain ⟨t', ht', hpasses, heq⟩ := ha k t ht
    refine ⟨t', ht', hpasses, fun hk => heq fun hmem => hk ?_⟩
    exact (hsub.map Prod.fst).subset hmem
  · obtain ⟨state, hstate, hexits⟩ := h.exits (s, exits) (by simp)
    obtain ⟨state', hstate', _, heq⟩ := ha s state hstate
    rw [heq h.not_mem_others] at hstate'
    exact ⟨state, hstate', hexits⟩

end Site

end Automaton

end RegexEngine
