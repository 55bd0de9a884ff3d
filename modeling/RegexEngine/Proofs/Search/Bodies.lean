import Mathlib.Data.Finset.Card
import Mathlib.Order.Interval.Finset.Nat
import RegexEngine.Proofs.Search.Ends
import RegexEngine.Proofs.Search.Reaching

/-!
Searches for bodies. The body of a lookaround is a part of the automaton without actions that no
transition leaves, and that ends in a state which nothing follows. A search for it always ends: each
step takes input or enters a state that was not entered here before. And it finds something exactly
if a run leads through the body to a place where the body may end; a lookbehind finds the nearest
place that such a run starts from.
-/

namespace RegexEngine

/-- An answer tells whether one of some ways arrives where the search may end. -/
structure Attempt.Explores (A : Attempt) (a : Automaton) (search : Search) (goal : Goal)
    (frames : List Frame) : Prop where
  committed_eq : A.committed = false
  sound : ∀ m, A.found = some m → goal.admits search m.stop = true ∧
    ∃ frame ∈ frames, a.Arrives search.input m.stop frame
  complete : A.found = none → ∀ stop, goal.admits search stop = true →
    ∀ frame ∈ frames, ¬a.ArrivesDirectly search.input stop frame

namespace Automaton

variable {a : Automaton} {search : Search} {goal : Goal}

/-- A state of a body does nothing itself, and leads on to states of the body only. -/
structure Inner (lo hi stop k : Nat) (s : State) : Prop where
  action_eq : s.action = none
  accepting_eq : s.accepting = false
  ends_iff : s.marks.contains .bodyEnd = true ↔ k = stop
  last : k = stop → s.transitions = []
  target_ge : ∀ t ∈ s.transitions, lo ≤ t.target
  target_lt : ∀ t ∈ s.transitions, t.target < hi
  single : ∀ t ∈ s.transitions, t.label.all (·.matcher.isSingle) = true

/-- The states from one place up to another make a body that ends in one of them. -/
structure BodyAt (a : Automaton) (lo hi stop : Nat) : Prop where
  stop_ge : lo ≤ stop
  stop_lt : stop < hi
  inside : ∀ k, lo ≤ k → k < hi → ∃ s, a.states[k]? = some s ∧ Inner lo hi stop k s

/-- The automaton that accepts where a body ends. -/
def endingAt (a : Automaton) (stop : Nat) : Automaton :=
  a.modifyState stop fun s => { s with accepting := true }

theorem getElem?_endingAt_of_ne {stop k : Nat} (h : k ≠ stop) :
    (a.endingAt stop).states[k]? = a.states[k]? := by
  rw [endingAt, modifyState, Array.getElem?_modify, if_neg (Ne.symm h)]

theorem getElem?_endingAt_self {stop : Nat} {s : State} (h : a.states[stop]? = some s) :
    (a.endingAt stop).states[stop]? = some { s with accepting := true } := by
  rw [endingAt, modifyState, Array.getElem?_modify, if_pos rfl, h]
  rfl

/-! Several ways. -/

theorem exists_gives_ways {b : Automaton} {frames : List Frame}
    (h : ∀ frame ∈ frames, ∃ A, a.code.Gives search (.way goal frame) A ∧
      A.Explores b search goal [frame]) :
    ∃ A, a.code.Gives search (.ways goal frames) A ∧ A.Explores b search goal frames := by
  induction frames with
  | nil =>
    exact ⟨_, .nothing, rfl, fun _ hm => (nomatch hm), fun _ _ _ _ hframe => (nomatch hframe)⟩
  | cons frame rest ih =>
    obtain ⟨hframe, hrest⟩ := List.forall_mem_cons.mp h
    obtain ⟨A, hway, hA⟩ := hframe
    cases hfound : A.found with
    | some m =>
      obtain ⟨hends, frame', hmem, harrives⟩ := hA.sound m hfound
      obtain rfl := List.mem_singleton.mp hmem
      refine ⟨A, .decided hway ?_, hA.committed_eq, fun m' hm' => ?_, fun hnone => ?_⟩
      · rintro rfl
        cases hfound
      · cases hfound.symm.trans hm'
        exact ⟨hends, frame', List.mem_cons_self, harrives⟩
      · cases hfound.symm.trans hnone
    | none =>
      have hfruitless : A = .fruitless := by
        obtain ⟨found, committed⟩ := A
        cases hfound
        cases hA.committed_eq
        rfl
      subst hfruitless
      obtain ⟨B, hways, hB⟩ := ih hrest
      refine ⟨B, .passed hway hways, hB.committed_eq, fun m hm => ?_, fun hnone stop hends => ?_⟩
      · obtain ⟨hends, frame', hmem, harrives⟩ := hB.sound m hm
        exact ⟨hends, frame', List.mem_cons_of_mem _ hmem, harrives⟩
      · exact List.forall_mem_cons.mpr
          ⟨hA.complete rfl stop hends frame (List.mem_singleton_self _), hB.complete hnone stop hends⟩

/-! One way. -/

theorem explores_nil (b : Automaton) (search : Search) (goal : Goal) :
    Attempt.fruitless.Explores b search goal [] :=
  ⟨rfl, fun _ hm => (nomatch hm), fun _ _ _ _ hframe => (nomatch hframe)⟩

theorem exists_gives_finish (a b : Automaton) (search : Search) (goal : Goal) (position : Nat)
    (slots : Slots) :
    ∃ A, a.code.Gives search (.move goal (.finish position slots)) A ∧
      A.Explores b search goal [.accept position slots] := by
  by_cases hadmits : goal.admits search position = true
  · refine ⟨_, .admitted hadmits, rfl, fun m hm => ?_, fun hnone => (nomatch hnone)⟩
    cases hm
    exact ⟨hadmits, _, List.mem_singleton_self _, rfl⟩
  · rw [Bool.not_eq_true] at hadmits
    refine ⟨_, .refused hadmits, rfl, fun m hm => (nomatch hm), fun _ last hends frame hframe => ?_⟩
    obtain rfl := List.mem_singleton.mp hframe
    rintro rfl
    cases hadmits.symm.trans hends

/-- A way from a state that does not accept goes over one of its transitions. -/
theorem exists_over_of_mem_expand {s : State} {path : Path} {frame : Frame}
    (haccepting : s.accepting = false) (hframe : frame ∈ expand s search path) :
    ∃ t ∈ s.transitions, State.over? search.input { path.entered with
      slots := s.capture path.position path.slots } t = some frame := by
  unfold expand at hframe
  split at hframe
  · rcases List.mem_append.mp hframe with hframe | hframe
    · exact List.mem_filterMap.mp hframe
    · simp [haccepting] at hframe
  · cases hframe

/-- A state that is entered is not new any more. -/
theorem card_sdiff_trail_lt {states : Finset Nat} {place : Nat} {trail : List Nat}
    (hplace : place ∈ states) (hnew : place ∉ trail) :
    (states \ (place :: trail).toFinset).card < (states \ trail.toFinset).card := by
  apply Finset.card_lt_card
  rw [Finset.ssubset_iff_of_subset]
  · exact ⟨place, by simp [hplace, hnew], by simp⟩
  · intro other hother
    simp only [Finset.mem_sdiff, List.mem_toFinset, List.mem_cons, not_or] at hother ⊢
    exact ⟨hother.1, hother.2.2⟩

section Way

variable {lo hi stop : Nat} {path : Path} {s : State}

theorem explores_repeated {b : Automaton} (h : path.place ∈ path.trail) :
    Attempt.fruitless.Explores b search goal [.follow path] := by
  refine ⟨rfl, fun _ hm => (nomatch hm), fun _ last _ frame hframe harrives => ?_⟩
  obtain rfl := List.mem_singleton.mp hframe
  cases harrives <;> exact absurd h ‹_›

/-- A way is explored when the ways that it leads to are. -/
theorem explores_of_expand {b : Automaton} {A : Attempt} (haction : s.action = none)
    (hsingle : ∀ t ∈ s.transitions, t.label.all (·.matcher.isSingle) = true)
    (hstate : b.states[path.place]? = some s) (h : A.Explores b search goal (expand s search path)) :
    A.Explores b search goal [.follow path] := by
  refine ⟨h.committed_eq, fun m hm => ?_, fun hnone last hends frame hframe harrives => ?_⟩
  · obtain ⟨hends, frame, hframe, harrives⟩ := h.sound m hm
    exact ⟨hends, _, List.mem_singleton_self _,
      harrives.of_mem_expand haction hsingle hstate hframe⟩
  · obtain rfl := List.mem_singleton.mp hframe
    obtain ⟨next, hnext, hrest⟩ := harrives.exists_mem_expand haction hsingle hstate
    exact h.complete hnone last hends next hnext hrest

/-- Where a state is the last one of a body, a search for the body ends, if it may end here. -/
theorem exists_gives_last {last : Option Nat} (hstate : a.states[path.place]? = some s)
    (hinner : Inner lo hi stop path.place s) (hstop : path.place = stop)
    (hnew : path.place ∉ path.trail) :
    ∃ A, a.code.Gives search (.way (.body last) (.follow path)) A ∧
      A.Explores (a.endingAt stop) search (.body last) [.follow path] := by
  have hentered : a.states[path.entered.place]? = some s := hstate
  have henter := code_enter_eq hentered search.input true
  have hends : s.marks.contains .bodyEnd = true := hinner.ends_iff.mpr hstop
  have hlast := getElem?_endingAt_self (hstop ▸ hstate)
  rw [← hstop] at hlast ⊢
  have hexplores {A : Attempt} (h : A.Explores (a.endingAt path.place) search (.body last)
      (expand { s with accepting := true } search path)) :=
    explores_of_expand (s := { s with accepting := true }) hinner.action_eq hinner.single hlast h
  have hexpand : expand { s with accepting := true } search path =
      if s.marks.holdAt search.input path.position then
        [.accept path.position (s.capture path.position path.slots)] else [] := by
    simp only [expand, State.ways, hinner.last hstop, List.filterMap_nil, List.nil_append,
      Bool.not_false, Bool.and_self, if_true]
    rfl
  rw [hexpand] at hexplores
  by_cases hholds : s.marks.holdAt search.input path.position = true
  · have hfinish : s.enter search.input true path.entered =
        .finish path.position (s.capture path.position path.slots) := by
      simp [State.enter, Path.entered, hholds, hends]
    rw [hfinish] at henter
    rw [if_pos hholds] at hexplores
    obtain ⟨A, hmove, hA⟩ := exists_gives_finish a (a.endingAt path.place) search (.body last)
      path.position (s.capture path.position path.slots)
    exact ⟨A, .entered hnew henter hmove, hexplores hA⟩
  · have hdead : s.enter search.input true path.entered = .dead := by
      simp [State.enter, Path.entered, hholds]
    rw [hdead] at henter
    rw [if_neg hholds] at hexplores
    exact ⟨_, .entered hnew henter (.go .nothing), hexplores (explores_nil ..)⟩

/-- Any other state of a body leads on in the ways that lead on from it without a goal. -/
theorem enter_eq_expand_of_inner (hinner : Inner lo hi stop path.place s)
    (hstop : path.place ≠ stop) :
    s.enter search.input true path.entered = .go (expand s search path) false := by
  have hends : s.marks.contains .bodyEnd = false := by
    rw [← Bool.not_eq_true, hinner.ends_iff]
    exact hstop
  dsimp only [Path.entered]
  unfold State.enter expand
  split
  · simp [State.act, State.proceed, State.ways, hends, hinner.action_eq, hinner.accepting_eq]
  · rfl

/-- A search for a body ends, and finds the end of a run through the body if there is one. -/
theorem exists_gives_way (hbody : a.BodyAt lo hi stop) (last : Option Nat) (path : Path)
    (hlo : lo ≤ path.place) (hhi : path.place < hi) (hposition : path.position ≤ search.input.size) :
    ∃ A, a.code.Gives search (.way (.body last) (.follow path)) A ∧
      A.Explores (a.endingAt stop) search (.body last) [.follow path] := by
  by_cases hseen : path.place ∈ path.trail
  · exact ⟨_, .repeated hseen, explores_repeated hseen⟩
  obtain ⟨s, hstate, hinner⟩ := hbody.inside _ hlo hhi
  by_cases hstop : path.place = stop
  · exact exists_gives_last hstate hinner hstop hseen
  have hsame := (getElem?_endingAt_of_ne hstop).trans hstate
  have hway (frame : Frame) (hframe : frame ∈ expand s search path) :
      ∃ A, a.code.Gives search (.way (.body last) frame) A ∧
        A.Explores (a.endingAt stop) search (.body last) [frame] := by
    obtain ⟨t, ht, hover⟩ := exists_over_of_mem_expand hinner.accepting_eq hframe
    rcases (over?_eq_some_iff (hinner.single t ht)).mp hover with ⟨_, rfl⟩ | ⟨c, hc, _, rfl⟩
    · have hfewer := card_sdiff_trail_lt (Finset.mem_Ico.mpr ⟨hlo, hhi⟩) hseen
      exact exists_gives_way hbody last _ (hinner.target_ge t ht) (hinner.target_lt t ht) hposition
    · have hless : path.position < search.input.size := (Array.getElem?_eq_some_iff.mp hc).1
      exact exists_gives_way hbody last _ (hinner.target_ge t ht) (hinner.target_lt t ht) hless
  obtain ⟨A, hways, hA⟩ := exists_gives_ways hway
  have hentered : a.states[path.entered.place]? = some s := hstate
  have henter := code_enter_eq hentered search.input true
  rw [enter_eq_expand_of_inner hinner hstop] at henter
  exact ⟨A, .entered hseen henter (.go hways),
    explores_of_expand hinner.action_eq hinner.single hsame hA⟩
termination_by
  (search.input.size - path.position, (Finset.Ico lo hi \ path.trail.toFinset).card)
decreasing_by
  · exact Prod.Lex.right _ hfewer
  · exact Prod.Lex.left _ _ (Nat.sub_succ_lt_self _ _ hless)

end Way

/-! Whole bodies. -/

/-- A run leads through a body from its start at one place to its end at another. -/
def Crosses (a : Automaton) (input : Array Char) (start stop i j : Nat) : Prop :=
  ∃ n, (a.endingAt stop).LeadsUpTo input j n start i

section Body

variable {lo hi start stop : Nat}

theorem gives_start (hbody : a.BodyAt lo hi stop) (hlo : lo ≤ start) (hhi : start < hi)
    (last : Option Nat) {i : Nat} (hi : i ≤ search.input.size) (slots : Slots) :
    (∃ m, a.code.Gives search (.way (.body last) (.follow (.start start i slots))) ⟨some m, false⟩ ∧
      last.all (· == m.stop) = true ∧ a.Crosses search.input start stop i m.stop) ∨
    (a.code.Gives search (.way (.body last) (.follow (.start start i slots))) .fruitless ∧
      ∀ j, last.all (· == j) = true → ¬a.Crosses search.input start stop i j) := by
  obtain ⟨⟨found, committed⟩, hway, hcommitted, hsound, hcomplete⟩ :=
    exists_gives_way hbody last (.start start i slots) hlo hhi hi
  obtain rfl : committed = false := hcommitted
  cases found with
  | some m =>
    obtain ⟨hends, frame, hframe, harrives⟩ := hsound m rfl
    obtain rfl := List.mem_singleton.mp hframe
    exact .inl ⟨m, hway, hends, harrives⟩
  | none =>
    refine .inr ⟨hway, fun j hends hcrosses => ?_⟩
    exact hcomplete rfl j hends _ (List.mem_singleton_self _)
      (exists_leadsUpTo_iff_direct.mp hcrosses)

/-- A body that is looked for ahead is found exactly if it can be crossed from here. -/
theorem gives_ahead (hbody : a.BodyAt lo hi stop) (hlo : lo ≤ start) (hhi : start < hi)
    {path : Path} (hposition : path.position ≤ search.input.size) :
    (∃ m, a.code.Gives search (.body ⟨start, false⟩ path path.position) ⟨some m, false⟩ ∧
      a.code.Gives search (.way (.body none) (.follow (.start start path.position path.slots)))
        ⟨some m, false⟩ ∧ a.Crosses search.input start stop path.position m.stop) ∨
    (a.code.Gives search (.body ⟨start, false⟩ path path.position) .fruitless ∧
      ∀ j, ¬a.Crosses search.input start stop path.position j) := by
  have hstays (found : Option Found) : ¬(⟨start, false⟩ : Body).GoesBack path.position found :=
    fun hback => Bool.false_ne_true hback.2.1
  rcases gives_start hbody hlo hhi none hposition path.slots with
    ⟨m, hway, _, hcrosses⟩ | ⟨hway, hnone⟩
  · exact .inl ⟨m, .answered hway (hstays _), hway, hcrosses⟩
  · exact .inr ⟨.answered hway (hstays _), fun j => hnone j rfl⟩

/-- A body that is looked for behind is found exactly if it can be crossed from an earlier place up
to here, and the nearest such place is the one that it is found from. -/
theorem gives_behind (hbody : a.BodyAt lo hi stop) (hlo : lo ≤ start) (hhi : start < hi)
    (path : Path) {tried : Nat} (htried : tried ≤ search.input.size) :
    (∃ m i, a.code.Gives search (.body ⟨start, true⟩ path tried) ⟨some m, false⟩ ∧
      a.code.Gives search (.way (.body (some path.position)) (.follow (.start start i path.slots)))
        ⟨some m, false⟩ ∧ m.stop = path.position ∧
      IsGreatest {i | i ≤ tried ∧ a.Crosses search.input start stop i path.position} i) ∨
    (a.code.Gives search (.body ⟨start, true⟩ path tried) .fruitless ∧
      ∀ i ≤ tried, ¬a.Crosses search.input start stop i path.position) := by
  have hends (j : Nat) : (some path.position).all (· == j) = true ↔ path.position = j := by simp
  induction tried with
  | zero =>
    have hstays (found : Option Found) : ¬(⟨start, true⟩ : Body).GoesBack 0 found :=
      fun hback => Nat.lt_irrefl 0 hback.2.2
    rcases gives_start hbody hlo hhi (some path.position) htried path.slots with
      ⟨m, hway, hlast, hcrosses⟩ | ⟨hway, hnone⟩
    · have hstop := ((hends _).mp hlast).symm
      rw [hstop] at hcrosses
      refine .inl ⟨m, 0, .answered hway (hstays _), hway, hstop, ⟨Nat.le_refl 0, hcrosses⟩, ?_⟩
      exact fun i hi => hi.1
    · refine .inr ⟨.answered hway (hstays _), fun i hi => ?_⟩
      obtain rfl := Nat.le_zero.mp hi
      exact hnone _ ((hends _).mpr rfl)
  | succ tried ih =>
    rcases gives_start hbody hlo hhi (some path.position) htried path.slots with
      ⟨m, hway, hlast, hcrosses⟩ | ⟨hway, hnone⟩
    · have hstop := ((hends _).mp hlast).symm
      rw [hstop] at hcrosses
      have hstays : ¬(⟨start, true⟩ : Body).GoesBack (tried + 1) (some m) :=
        fun hback => nomatch hback.1
      refine .inl ⟨m, tried + 1, .answered hway hstays, hway, hstop, ⟨Nat.le_refl _, hcrosses⟩, ?_⟩
      exact fun i hi => hi.1
    · have hback : (⟨start, true⟩ : Body).GoesBack (tried + 1) none :=
        ⟨rfl, rfl, Nat.succ_pos tried⟩
      have hhere : ¬a.Crosses search.input start stop (tried + 1) path.position :=
        hnone _ ((hends _).mpr rfl)
      have hearlier {i : Nat} (hi : i ≤ tried + 1)
          (hcrosses : a.Crosses search.input start stop i path.position) : i ≤ tried := by
        rcases Nat.le_succ_iff.mp hi with hi | rfl
        · exact hi
        · exact absurd hcrosses hhere
      rcases ih (Nat.le_of_succ_le htried) with
        ⟨m, i, hgives, hfrom, hstop, hgreatest⟩ | ⟨hgives, hall⟩
      · refine .inl ⟨m, i, .back hway hback hgives, hfrom, hstop, ?_, ?_⟩
        · exact ⟨Nat.le_succ_of_le hgreatest.1.1, hgreatest.1.2⟩
        · exact fun other hother => hgreatest.2 ⟨hearlier hother.1 hother.2, hother.2⟩
      · refine .inr ⟨.back hway hback hgives, fun i hi hcrosses => ?_⟩
        exact hall i (hearlier hi hcrosses) hcrosses

end Body

end Automaton

end RegexEngine
