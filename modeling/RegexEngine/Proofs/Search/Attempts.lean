import RegexEngine.Proofs.Automaton.Ways
import RegexEngine.Proofs.Search.Lockstep
import RegexEngine.Proofs.Search.Machine
import RegexEngine.Search.Searcher

/-!
Attempts on nondeterministic automata. Whichever way an automaton is searched, an attempt that is
not stopped at a bound ends as the one way that starts at its place does. A well-formed automaton
leads from its states to its states only, so no attempt on it fails otherwise.
-/

namespace RegexEngine

open Tracked

/-! What a state of a well-formed automaton asks for. -/

namespace State

variable {s : State} {count index : Nat} {input : Array Char} {inBody : Bool} {path : Path}

theorem within_ways (hfits : s.FitsAt count index) :
    ∀ frame ∈ s.ways input inBody path, frame.Within (·.place < count) := by
  intro frame hframe
  rcases List.mem_append.mp hframe with hframe | hframe
  · obtain ⟨t, ht, hover⟩ := List.mem_filterMap.mp hframe
    obtain ⟨position, _, rfl⟩ := Option.map_eq_some_iff.mp hover
    exact hfits.target_lt t ht
  · split at hframe
    · rw [List.mem_singleton.mp hframe]
      trivial
    · cases hframe

theorem within_proceed (hfits : s.FitsAt count index) :
    (s.proceed input inBody path).Within (·.place < count) :=
  within_ways hfits

theorem within_dead : Move.dead.Within (·.place < count) := fun _ hframe => (nomatch hframe)

theorem within_choose (hfits : s.FitsAt count index) (holds : Bool) :
    (s.choose path holds).Within (·.place < count) := by
  have hchosen : ∀ t, (if holds then s.transitions.head?
      else s.transitions[1]?.or s.transitions.head?) = some t → t ∈ s.transitions := by
    intro t ht
    cases holds with
    | true => exact List.mem_of_mem_head? ht
    | false =>
      rcases Option.or_eq_some_iff.mp ht with ht | ⟨_, ht⟩
      · exact List.mem_of_getElem? ht
      · exact List.mem_of_mem_head? ht
  unfold choose
  dsimp only
  split
  · rename_i t ht
    intro frame hframe
    rw [List.mem_singleton.mp hframe]
    exact hfits.target_lt t (hchosen t ht)
  · exact within_dead

theorem within_act (hfits : s.FitsAt count index) (hplace : path.place < count) :
    (s.act input inBody path).Within (·.place < count) := by
  unfold act
  split
  · exact within_proceed hfits
  · exact within_dead
  · trivial
  · exact within_ways hfits
  · split
    · exact within_proceed hfits
    · exact within_dead
  · rename_i kind body haction
    exact ⟨fun _ _ => hfits.body_lt body (by rw [haction]; rfl), hplace⟩
  · rename_i body haction
    exact ⟨fun _ _ => hfits.body_lt body (by rw [haction]; rfl), hplace⟩
  · exact within_choose hfits _
  · rename_i kind body haction
    exact ⟨fun _ _ => hfits.body_lt body (by rw [haction]; rfl), hplace⟩

theorem within_enter (hfits : s.FitsAt count index) (hplace : path.place < count) :
    (s.enter input inBody path).Within (·.place < count) := by
  unfold enter
  split
  · dsimp only
    split
    · trivial
    · exact within_act hfits hplace
  · exact within_dead

theorem within_resume (hfits : s.FitsAt count index) (found : Option Found) :
    (s.resume input inBody path found).Within (·.place < count) := by
  unfold resume
  split
  · split
    · exact within_proceed hfits
    · exact within_dead
  · split
    · exact within_choose hfits true
    · exact within_choose hfits false
  · split
    · exact within_proceed hfits
    · exact within_dead
  · exact within_dead

end State

namespace Automaton

variable {a : Automaton} {search : Search}

/-- An automaton in which nothing refers to what is not there never leads out of its states. -/
theorem Inside.closedOn (hinside : a.Inside) : a.code.ClosedOn (·.place < a.stateCount) where
  enter input inBody path hplace := by
    have hstate : a.states[path.place]? = some a.states[path.place] :=
      Array.getElem?_eq_getElem hplace
    have hentered : a.states[path.entered.place]? = some a.states[path.place] := hstate
    exact ⟨_, code_enter_eq hentered input inBody,
      State.within_enter (hinside.fits _ _ hstate) hplace⟩
  resume input inBody path found hplace := by
    have hstate : a.states[path.place]? = some a.states[path.place] :=
      Array.getElem?_eq_getElem hplace
    exact ⟨_, code_resume_eq hstate input inBody found,
      State.within_resume (hinside.fits _ _ hstate) found⟩

theorem WellFormed.closedOn (hwf : a.WellFormed) : a.code.ClosedOn (·.place < a.stateCount) :=
  hwf.inside.closedOn

/-- Automata without actions are searched for no body, so both ways of saying what is found agree. -/
theorem Answers.gives (hactions : a.hasActions = false) {frames : List Frame}
    {found : Option Found} (h : a.Answers search frames found) :
    a.code.Gives search (.ways .whole frames) (.ofFound found) := by
  induction h with
  | nil => exact .nothing
  | accepted hends => exact .decided (.accept (.admitted hends)) (by simp [Attempt.fruitless, Attempt.ofFound])
  | refused hrefuses _ ih => exact .passed (.accept (.refused hrefuses)) ih
  | repeated hseen _ ih => exact .passed (.repeated hseen) ih
  | @entered path s rest found hnew hstate _ ih =>
    have henter : a.code.enter search.input Goal.whole.isBody path.entered =
        .ok (.go (expand s search path) false) := by
      have hentered : a.states[path.entered.place]? = some s := hstate
      rw [code_enter_eq hentered]
      exact congrArg Except.ok (enter_eq_expand (action_eq_none hactions hstate) search path)
    obtain ⟨A, hways, hsequel⟩ := Code.gives_append_iff.mp ih
    exact Code.gives_cons_iff.mpr ⟨A, .entered hnew henter (.go hways), hsequel⟩

/-- The one way that an attempt starts with. -/
def firstWay (a : Automaton) (initial start : Nat) : Quest :=
  .way .whole (.follow (.start initial start (.unset a.groupCount)))

/-- An attempt ends as its first way does, whether the ways are followed one after the other or all
at the same time. -/
theorem attempt_ensures (hinside : a.Inside) (hkind : a.kind = .nfa)
    (hbailout : search.bailout = none) {initial start : Nat} (hinitial : a.initial = some initial)
    (hstart : start ≤ search.input.size) :
    Ensures (a.attempt search start) (a.code.Gives search (a.firstWay initial start)) := by
  have hlt := hinside.initial_lt initial hinitial
  unfold attempt
  simp only [hinitial, hkind, reduceCtorEq, if_false]
  split
  · rename_i hmode
    have hsupported : a.supportsLockstep = true := by simp_all
    have hactions := hasActions_eq_false hsupported
    refine ensures_mono (hinside.lockstep_ensures hsupported hbailout hinitial hstart)
      fun attempt hattempt => ?_
    obtain ⟨found, rfl, hanswers⟩ := hattempt
    exact Code.gives_singleton_iff.mp (hanswers.gives hactions)
  · exact Code.search_ensures hbailout hinside.closedOn hlt

end Automaton

end RegexEngine
