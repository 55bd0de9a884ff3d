import RegexEngine.Proofs.Search.Along
import RegexEngine.Proofs.Search.Attempts

/-!
What holds along the ways of a search that follows all of them at the same time. A front keeps some
of the ways that backtracking would leave waiting, and what it finds is where one of them ends. So
what holds of the first way, and of all that a way leads to if it holds of the way, holds of what is
found, whatever ways were left out. In particular a relation that an automaton respects leads from
the first path to what is found.
-/

namespace RegexEngine

open Tracked Automaton

/-- Something holds of what is left to do, whatever was entered before. -/
def Errand.All (P : Frame → Prop) (search : Search) (position : Nat) (errand : Errand) : Prop :=
  ∃ trail, ∀ frame ∈ errand.frames search position trail, P frame

/-- Something holds of the ways that a thread still has to try. -/
def Thread.All (P : Frame → Prop) (search : Search) (position : Nat) (thread : Thread) : Prop :=
  ∀ frame ∈ thread.frames search position, P frame

/-- Something holds of what is found, and a match may end there. -/
def Found.All (P : Frame → Prop) (search : Search) (found : Option Found) : Prop :=
  ∀ f, found = some f → search.endsAt f.stop = true ∧ P (.accept f.stop f.slots)

namespace Automaton

variable {a : Automaton} {search : Search} {P : Frame → Prop}

/-- What holds of a way holds of all ways that it leads to. -/
def HandsOn (a : Automaton) (search : Search) (P : Frame → Prop) : Prop :=
  ∀ (path : Path) (s : State), a.states[path.place]? = some s → P (.follow path) →
    ∀ frame ∈ expand s search path, P frame

theorem visit_grants (hP : a.HandsOn search P) (hsupported : a.supportsLockstep = true)
    {position state : Nat} {slots : Slots}
    (h : (Errand.visit state slots).All P search position) (waiting : Nat) :
    Grants (a.visit search position waiting state slots) fun more =>
      ∀ errand ∈ more, errand.All P search position := by
  have hnone : Grants (pure [] : Tracked (List Errand)) fun more =>
      ∀ errand ∈ more, errand.All P search position :=
    grants_pure (by simp)
  obtain ⟨trail, htrail⟩ := h
  have hpath := htrail _ (List.mem_singleton.mpr rfl)
  unfold visit
  apply grants_bind_any
  intro admitted
  split
  · split
    · rename_i s hstate
      split
      · rename_i hholds
        have hways := hP _ s hstate hpath
        rw [expand_eq hsupported hstate, if_pos hholds] at hways
        apply grants_pure
        intro errand herrand
        refine ⟨state :: trail, fun frame hframe => hways frame ?_⟩
        exact List.mem_flatMap.mpr ⟨errand, herrand, hframe⟩
      · exact hnone
    · exact hnone
  · exact hnone

/-- The induction is on the number of states that were not entered, and then on the errands. -/
theorem spread_grants (hP : a.HandsOn search P) (hsupported : a.supportsLockstep = true)
    {position : Nat} :
    ∀ (seen : Array Bool) (threads : List Thread) (errands : List Errand),
      (∀ thread ∈ threads, thread.All P search position) →
        (∀ errand ∈ errands, errand.All P search position) →
          Grants (a.spread search position seen threads errands) fun front =>
            ∀ thread ∈ front.threads, thread.All P search position := by
  intro seen threads errands
  induction seen, threads, errands using Automaton.spread.induct with
  | case1 seen threads =>
    intro hthreads _
    rw [spread]
    apply grants_pure
    simpa using hthreads
  | case2 seen threads thread rest ih =>
    intro hthreads herrands
    rw [spread]
    obtain ⟨⟨_, hthread⟩, hrest⟩ := List.forall_mem_cons.mp herrands
    exact ih (List.forall_mem_cons.mpr ⟨hthread, hthreads⟩) hrest
  | case3 seen threads s slots rest hlt hseen ih =>
    intro hthreads herrands
    rw [spread, dif_pos hlt, dif_pos hseen]
    exact ih hthreads (List.forall_mem_cons.mp herrands).2
  | case4 seen threads s slots rest hlt hseen ih =>
    intro hthreads herrands
    obtain ⟨hvisit, hrest⟩ := List.forall_mem_cons.mp herrands
    rw [spread, dif_pos hlt, dif_neg hseen]
    refine grants_bind (visit_grants hP hsupported hvisit _) fun more hmore => ?_
    apply ih more hthreads
    intro errand herrand
    exact (List.mem_append.mp herrand).elim (hmore errand) (hrest errand)
  | case5 seen threads s slots rest hlt ih =>
    intro hthreads herrands
    rw [spread, dif_neg hlt]
    exact ih hthreads (List.forall_mem_cons.mp herrands).2

theorem join_grants (hP : a.HandsOn search P) (hsupported : a.supportsLockstep = true)
    {position state : Nat} {slots : Slots} {front : Front}
    (hfront : ∀ thread ∈ front.threads, thread.All P search position)
    (hstate : P (.follow (.start state position slots))) :
    Grants (a.join search position front state slots) fun joined =>
      ∀ thread ∈ joined.threads, thread.All P search position := by
  unfold join
  have hvisit : ∀ errand ∈ [Errand.visit state slots], errand.All P search position := by
    intro errand herrand
    rw [List.mem_singleton] at herrand
    subst herrand
    refine ⟨[], fun frame hframe => ?_⟩
    obtain rfl := List.mem_singleton.mp hframe
    exact hstate
  refine grants_bind (spread_grants hP hsupported front.seen [] _ (by simp) hvisit)
    fun more hmore => ?_
  apply grants_pure
  intro thread hthread
  exact (List.mem_append.mp hthread).elim (hfront thread) (hmore thread)

theorem advanceAll_grants (hP : a.HandsOn search P) (hsupported : a.supportsLockstep = true)
    {position : Nat} (threads : List Thread) :
    ∀ (front : Front) (found : Option Found),
      (∀ thread ∈ front.threads, thread.All P search (position + 1)) →
        Found.All P search found → (∀ thread ∈ threads, thread.All P search position) →
          Grants (a.advanceAll search position front found threads) fun result =>
            (∀ thread ∈ result.1.threads, thread.All P search (position + 1)) ∧
              Found.All P search result.2 := by
  induction threads with
  | nil => exact fun front found hfront hfound _ => grants_pure ⟨hfront, hfound⟩
  | cons thread rest ih =>
    intro front found hfront hfound hthreads
    obtain ⟨hthread, hrest⟩ := List.forall_mem_cons.mp hthreads
    cases thread with
    | accept slots =>
      rw [advanceAll]
      split
      · rename_i hends
        apply grants_pure
        refine ⟨hfront, fun f hf => ?_⟩
        cases hf
        exact ⟨hends, hthread _ (List.mem_singleton.mpr rfl)⟩
      · exact ih front found hfront hfound hrest
    | wait t slots =>
      rw [advanceAll]
      split
      · rename_i htakes
        have hover : P (.follow (.start t.target (position + 1) slots)) := by
          apply hthread
          rw [Thread.frames, if_pos htakes]
          exact List.mem_singleton.mpr rfl
        refine grants_bind (join_grants hP hsupported hfront hover) fun joined hjoined => ?_
        exact ih joined found hjoined hfound hrest
      · exact ih front found hfront hfound hrest

theorem race_grants (hP : a.HandsOn search P) (hsupported : a.supportsLockstep = true)
    (fuel : Nat) : ∀ (position : Nat) (threads : List Thread) (found : Option Found),
      (∀ thread ∈ threads, thread.All P search position) → Found.All P search found →
        Grants (a.race search fuel position threads found) (Found.All P search) := by
  induction fuel with
  | zero => exact fun _ _ _ _ hfound => grants_pure hfound
  | succ fuel ih =>
    intro position threads found hthreads hfound
    cases threads with
    | nil => exact grants_pure hfound
    | cons thread rest =>
      rw [race]
      · refine grants_bind (advanceAll_grants hP hsupported _ a.noFront found (by simp [noFront])
          hfound hthreads) fun result hresult => ?_
        exact ih (position + 1) _ _ hresult.1 hresult.2
      · simp

/-- What holds of the first way, and is handed on, holds of what is found at the end of all ways. -/
theorem lockstep_grants (hP : a.HandsOn search P) (hsupported : a.supportsLockstep = true)
    {initial start : Nat} (h : P (.follow (.start initial start (.unset a.groupCount)))) :
    Grants (a.lockstep search initial start) fun attempt => Found.All P search attempt.found := by
  unfold lockstep
  refine grants_bind (join_grants hP hsupported (by simp [noFront]) h) fun front hfront => ?_
  apply grants_map
  exact race_grants hP hsupported _ start front.threads none hfront (by simp [Found.All])

/-- To come of a path is handed on along what the automaton respects. -/
theorem handsOn_follows {R : Path → Path → Prop} (hR : a.code.Respects search.input R)
    (hsupported : a.supportsLockstep = true) (first : Path) :
    a.HandsOn search fun frame => frame.Follows R first := by
  intro path s hstate hpath frame hframe
  have hentered : a.states[path.entered.place]? = some s := hstate
  have haction := action_eq_none (hasActions_eq_false hsupported) hstate
  have henter := code_enter_eq hentered search.input false
  rw [Path.entered, enter_eq_expand haction] at henter
  exact (hR.enter _ _ _ henter frame hframe).after hR.toChains (hR.trans hpath (hR.entered _))

/-- What is found at the end of all ways comes of the first path. -/
theorem lockstep_follows {R : Path → Path → Prop} (hR : a.code.Respects search.input R)
    (hsupported : a.supportsLockstep = true) (initial start : Nat) :
    Grants (a.lockstep search initial start) fun attempt =>
      Found.Follows R (.start initial start (.unset a.groupCount)) attempt.found := by
  have hfirst : (Frame.follow (.start initial start (.unset a.groupCount))).Follows R
      (.start initial start (.unset a.groupCount)) := hR.refl _
  have hall := lockstep_grants (handsOn_follows hR hsupported _) hsupported hfirst
  exact grants_mono hall fun attempt hattempt f hf => (hattempt f hf).2

end Automaton

end RegexEngine
