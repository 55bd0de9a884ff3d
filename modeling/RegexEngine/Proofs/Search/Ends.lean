import RegexEngine.Proofs.Automaton.Stops
import RegexEngine.Proofs.Search.Attempts

/-!
Where matches end. An attempt on an automaton without actions whose labels take one character each
finds something exactly if a run leads from its start to a place where a match may end, and what it
finds ends at such a place. Which of these places it is depends on the order of the transitions, and
nothing is said about that.
-/

namespace RegexEngine

open Tracked

/-- The attempt has ruled out nothing, and finds one of some ends if there are any. -/
structure Attempt.Meets (A : Attempt) (ends : Nat → Prop) : Prop where
  committed_eq : A.committed = false
  sound : ∀ found, A.found = some found → ends found.stop
  complete : A.found = none → ∀ stop, ¬ends stop

theorem Attempt.Meets.congr {A : Attempt} {ends ends' : Nat → Prop} (h : A.Meets ends)
    (hends : ∀ stop, ends stop ↔ ends' stop) : A.Meets ends' :=
  ⟨h.committed_eq, fun found hfound => (hends _).mp (h.sound found hfound),
    fun hfound stop hstop => h.complete hfound stop ((hends stop).mpr hstop)⟩

namespace Automaton

variable {a : Automaton} {search : Search}

/-! Automata without actions ask for no body. -/

/-- What a part of a search for a match says about the ways that it consists of. -/
def Tells (a : Automaton) (search : Search) : Quest → Attempt → Prop
  | .way goal frame, A => goal = .whole → A.committed = false ∧ a.Answers search [frame] A.found
  | .ways goal frames, A => goal = .whole → A.committed = false ∧ a.Answers search frames A.found
  | .move goal (.finish position slots), A =>
    goal = .whole → A.committed = false ∧ a.Answers search [.accept position slots] A.found
  | .move goal (.go frames false), A =>
    goal = .whole → A.committed = false ∧ a.Answers search frames A.found
  | _, _ => True

theorem tells_decided {frame : Frame} {rest : List Frame} {A : Attempt} (hdecides : A ≠ .fruitless)
    (hcommitted : A.committed = false) (h : a.Answers search [frame] A.found) :
    a.Answers search (frame :: rest) A.found := by
  obtain ⟨found, committed⟩ := A
  obtain rfl : committed = false := hcommitted
  cases found with
  | none => exact absurd rfl hdecides
  | some m => exact h.append_found rest

theorem tells_entered (hactions : a.hasActions = false) {path : Path}
    {move : RegexEngine.Move} {A : Attempt}
    (hnew : path.place ∉ path.trail)
    (henter : a.code.enter search.input Goal.whole.isBody path.entered = .ok move)
    (h : a.Tells search (.move .whole move) A) :
    A.committed = false ∧ a.Answers search [.follow path] A.found := by
  obtain ⟨s, hstate, henter⟩ := enter_ok henter
  have hexpand := enter_eq_expand (action_eq_none hactions hstate) search path
  obtain rfl : .go (expand s search path) false = move := hexpand.symm.trans henter
  obtain ⟨hcommitted, hanswers⟩ := h rfl
  refine ⟨hcommitted, .entered hnew hstate ?_⟩
  rwa [List.append_nil]

/-- Where no state has an action, what a search finds is what its ways lead to. -/
theorem tells (hactions : a.hasActions = false) {quest : Quest} {A : Attempt}
    (h : a.code.Gives search quest A) : a.Tells search quest A := by
  induction h with
  | nothing => exact fun _ => ⟨rfl, .nil⟩
  | decided _ hdecides ih =>
    rintro rfl
    obtain ⟨hcommitted, hanswers⟩ := ih rfl
    exact ⟨hcommitted, tells_decided hdecides hcommitted hanswers⟩
  | passed _ _ ihway ihrest =>
    rintro rfl
    exact ⟨(ihrest rfl).1, (ihway rfl).2.append fun _ => (ihrest rfl).2⟩
  | accept _ ih => exact ih
  | repeated hseen => exact fun _ => ⟨rfl, .repeated hseen .nil⟩
  | entered hnew henter _ ih =>
    rintro rfl
    exact tells_entered hactions hnew henter ih
  | admitted hadmits =>
    rintro rfl
    exact ⟨rfl, .accepted hadmits⟩
  | refused hrefuses =>
    rintro rfl
    exact ⟨rfl, .refused hrefuses .nil⟩
  | go _ ih => exact ih
  | cut => trivial
  | ask => trivial
  | answered => trivial
  | back => trivial

/-! What a way leads to in one step. -/

theorem over?_eq_some_iff {t : Transition} (h : t.label.all (·.matcher.isSingle) = true)
    {input : Array Char} {path : Path} {frame : Frame} :
    State.over? input path t = some frame ↔
      (t.isEpsilon = true ∧ .follow { path with place := t.target } = frame) ∨
        ∃ c, input[path.position]? = some c ∧ t.matchesChar c = true ∧
          .follow { path with place := t.target, position := path.position + 1, trail := [] } =
            frame := by
  cases hlabel : t.label with
  | none =>
    simp [State.over?, Transition.matchAt?, Transition.isEpsilon, Transition.matchesChar, hlabel]
  | some label =>
    have hsingle : label.matcher.isSingle = true := by simpa [hlabel] using h
    cases hc : input[path.position]? with
    | none =>
      simp [State.over?, Transition.matchAt?, Transition.isEpsilon, hlabel,
        Matcher.matchAt?_of_isSingle hsingle, hc]
    | some c =>
      by_cases htakes : label.matcher.matchesChar c = true <;>
        simp [State.over?, Transition.matchAt?, Transition.isEpsilon, Transition.matchesChar,
          hlabel, Matcher.matchAt?_of_isSingle hsingle, hc, htakes]

theorem isOpenAt_eq_holdAt {s : Nat} {state : State} (haction : state.action = none)
    (hstate : a.states[s]? = some state) (input : Array Char) (position : Nat) :
    a.isOpenAt input position s = state.marks.holdAt input position := by
  simp [isOpenAt, hstate, haction]

/-- Some run leads on from a way that waits, and ends at a place. -/
def Arrives (a : Automaton) (input : Array Char) (stop : Nat) : Frame → Prop
  | .follow path => ∃ n, a.LeadsUpTo input stop n path.place path.position
  | .accept position _ => position = stop

/-- Some run leads on from a way that waits without coming back to what the way has entered. -/
def ArrivesDirectly (a : Automaton) (input : Array Char) (stop : Nat) : Frame → Prop
  | .follow path => a.Direct input stop path.trail path.place path.position
  | .accept position _ => position = stop

section Steps

variable {path : Path} {s : State} {stop : Nat}

theorem Arrives.of_mem_expand (haction : s.action = none)
    (hsingle : ∀ t ∈ s.transitions, t.label.all (·.matcher.isSingle) = true)
    (hstate : a.states[path.place]? = some s) {frame : Frame}
    (hframe : frame ∈ expand s search path)
    (h : a.Arrives search.input stop frame) : a.Arrives search.input stop (.follow path) := by
  unfold expand at hframe
  split at hframe
  · rename_i hholds
    have hopen : a.isOpenAt search.input path.position path.place = true :=
      (isOpenAt_eq_holdAt haction hstate ..).trans hholds
    rcases List.mem_append.mp hframe with hframe | hframe
    · obtain ⟨t, ht, hover⟩ := List.mem_filterMap.mp hframe
      rcases (over?_eq_some_iff (hsingle t ht)).mp hover with
        ⟨hepsilon, rfl⟩ | ⟨c, hc, htakes, rfl⟩
      · obtain ⟨n, hn⟩ := h
        exact ⟨n + 1, .pass hopen ((mem_epsilonTargets_iff hstate).mpr ⟨t, ht, hepsilon, rfl⟩) hn⟩
      · obtain ⟨n, hn⟩ := h
        have htarget := (mem_targetsOn_singleton_iff hstate).mpr ⟨t, ht, htakes, rfl⟩
        exact ⟨n + 1, .take hopen hc htarget hn⟩
    · split at hframe
      · rename_i haccepting
        obtain rfl := List.mem_singleton.mp hframe
        obtain rfl : path.position = stop := h
        exact ⟨0, .accept hopen hstate (by simpa using haccepting)⟩
      · cases hframe
  · cases hframe

theorem ArrivesDirectly.exists_mem_expand (haction : s.action = none)
    (hsingle : ∀ t ∈ s.transitions, t.label.all (·.matcher.isSingle) = true)
    (hstate : a.states[path.place]? = some s)
    (h : a.ArrivesDirectly search.input stop (.follow path)) :
    ∃ frame ∈ expand s search path, a.ArrivesDirectly search.input stop frame := by
  have hopens (hopen : a.isOpenAt search.input path.position path.place = true) :
      s.marks.holdAt search.input path.position = true :=
    (isOpenAt_eq_holdAt haction hstate ..).symm.trans hopen
  have hover {t : Transition} (ht : t ∈ s.transitions) {frame : Frame}
      (hholds : s.marks.holdAt search.input path.position = true)
      (hframe : State.over? search.input { path with
        slots := s.capture path.position path.slots
        trail := path.place :: path.trail } t = some frame) : frame ∈ expand s search path := by
    unfold expand
    rw [if_pos hholds]
    exact List.mem_append_left _ (List.mem_filterMap.mpr ⟨t, ht, hframe⟩)
  cases h with
  | accept _ hopen hstate' haccepting =>
    cases hstate.symm.trans hstate'
    refine ⟨.accept path.position (s.capture path.position path.slots), ?_, rfl⟩
    unfold expand
    rw [if_pos (hopens hopen)]
    exact List.mem_append_right _ (by simp [haccepting])
  | pass _ hopen htarget hrest =>
    obtain ⟨t, ht, hepsilon, rfl⟩ := (mem_epsilonTargets_iff hstate).mp htarget
    have hframe := hover ht (hopens hopen)
      ((over?_eq_some_iff (hsingle t ht)).mpr (.inl ⟨hepsilon, rfl⟩))
    exact ⟨_, hframe, hrest⟩
  | take _ hopen hc htarget hrest =>
    obtain ⟨t, ht, htakes, rfl⟩ := (mem_targetsOn_singleton_iff hstate).mp htarget
    have hframe := hover ht (hopens hopen)
      ((over?_eq_some_iff (hsingle t ht)).mpr (.inr ⟨_, hc, htakes, rfl⟩))
    exact ⟨_, hframe, hrest⟩

end Steps

/-! Whole attempts. -/

namespace Answers

variable {frames : List Frame} {found : Option Found}

/-- What is found ends where a run arrives, and a match may end there. -/
theorem sound (hsupported : a.supportsLockstep = true) (h : a.Answers search frames found)
    {m : Found} (hfound : found = some m) :
    search.endsAt m.stop = true ∧ ∃ frame ∈ frames, a.Arrives search.input m.stop frame := by
  induction h with
  | nil => cases hfound
  | accepted hends =>
    cases hfound
    exact ⟨hends, _, List.mem_cons_self, rfl⟩
  | refused _ _ ih | repeated _ _ ih =>
    obtain ⟨hends, frame, hframe, harrives⟩ := ih hfound
    exact ⟨hends, frame, List.mem_cons_of_mem _ hframe, harrives⟩
  | entered _ hstate _ ih =>
    obtain ⟨hends, frame, hframe, harrives⟩ := ih hfound
    refine ⟨hends, ?_⟩
    rcases List.mem_append.mp hframe with hframe | hframe
    · exact ⟨_, List.mem_cons_self, harrives.of_mem_expand (action_eq_none
        (hasActions_eq_false hsupported) hstate) (fun _ => label_isSingle hsupported hstate)
        hstate hframe⟩
    · exact ⟨frame, List.mem_cons_of_mem _ hframe, harrives⟩

/-- Where nothing is found, no direct run arrives at a place where a match may end. -/
theorem complete (hsupported : a.supportsLockstep = true) (h : a.Answers search frames found)
    (hfound : found = none) {stop : Nat} (hends : search.endsAt stop = true) :
    ∀ frame ∈ frames, ¬a.ArrivesDirectly search.input stop frame := by
  induction h with
  | nil => exact fun _ hframe => (nomatch hframe)
  | accepted => cases hfound
  | refused hrefuses _ ih =>
    refine List.forall_mem_cons.mpr ⟨fun harrives => ?_, ih hfound⟩
    obtain rfl := harrives
    cases hrefuses.symm.trans hends
  | repeated hseen _ ih =>
    refine List.forall_mem_cons.mpr ⟨fun harrives => ?_, ih hfound⟩
    cases harrives <;> exact absurd hseen ‹_›
  | entered _ hstate _ ih =>
    have hnone := List.forall_mem_append.mp (ih hfound)
    refine List.forall_mem_cons.mpr ⟨fun harrives => ?_, hnone.2⟩
    obtain ⟨frame, hframe, hnext⟩ := harrives.exists_mem_expand
      (action_eq_none (hasActions_eq_false hsupported) hstate)
      (fun _ => label_isSingle hsupported hstate) hstate
    exact hnone.1 frame hframe hnext

end Answers

/-- An attempt on a nondeterministic automaton that can be followed in lockstep finds the end of a
run, if a run leads from its start to a place where a match may end, whichever way it is made. -/
theorem attempt_meets_leadsUpTo (hsupported : a.supportsLockstep = true) (hinside : a.Inside)
    (hkind : a.kind = .nfa) (hbailout : search.bailout = none) {initial start : Nat}
    (hinitial : a.initial = some initial) (hstart : start ≤ search.input.size) :
    Ensures (a.attempt search start) fun A => A.Meets fun stop =>
      search.endsAt stop = true ∧ ∃ n, a.LeadsUpTo search.input stop n initial start := by
  refine ensures_mono (attempt_ensures hinside hkind hbailout hinitial hstart) fun A hA => ?_
  obtain ⟨hcommitted, hanswers⟩ := tells (hasActions_eq_false hsupported) hA rfl
  refine ⟨hcommitted, fun m hm => ?_, fun hnone stop hends => ?_⟩
  · obtain ⟨hends, frame, hframe, harrives⟩ := hanswers.sound hsupported hm
    obtain rfl := List.mem_singleton.mp hframe
    exact ⟨hends, harrives⟩
  · exact hanswers.complete hsupported hnone hends.1 _ (List.mem_singleton_self _)
      (exists_leadsUpTo_iff_direct.mp hends.2)

end Automaton

end RegexEngine
