import RegexEngine.Proofs.Search.Unfailing

/-!
The machine that runs searches ends as `Code.Gives` says. What a run leads to is read off the ways
that wait in the searches inside each other, and a step only resolves some of it: whatever the run
leads to after the step, it led to before. The last step hands it over. So a run that ends has found
what its first way leads to.

A code that never fails on certain paths, and keeps to them, is not stopped otherwise than at a bound.
-/

namespace RegexEngine

open Tracked

/-! What a run leads to. -/

/-- The answer of a body after one search for it. -/
def Suspended.Answers (s : Suspended) (code : Code) (search : Search) (first : Option Found)
    (answer : Option Found) : Prop :=
  ¬s.body.GoesBack s.tried first ∧ answer = first ∨
    s.body.GoesBack s.tried first ∧
      ∃ B, code.Gives search (.body s.body s.path (s.tried - 1)) B ∧ answer = B.found

/-- What searches that wait for bodies lead to, with the answer of the innermost body and the mark
of the run so far. -/
inductive Concludes (code : Code) (search : Search) :
    List Suspended → Option Found → Bool → Attempt → Prop
  | done {found : Option Found} {committed : Bool} :
      Concludes code search [] found committed ⟨found, committed⟩
  | resumed {s : Suspended} {outer : List Suspended} {first answer : Option Found} {move : Move}
      {A last : Attempt} {committed : Bool} : s.Answers code search first answer →
        code.resume search.input s.goal.isBody s.path answer = .ok move →
          code.GivesAfter search s.goal move s.stack.frames A →
            Concludes code search outer A.found (committed || (A.committed && !s.goal.isBody)) last →
              Concludes code search (s :: outer) first committed last

namespace Run

variable {code : Code} {search : Search} {last : Attempt}

/-- The search that a run is in ends, and so do those around it. -/
def Ends (r : Run) (code : Code) (search : Search) (A last : Attempt) : Prop :=
  Concludes code search r.outer A.found (r.committed || (A.committed && !r.goal.isBody)) last

/-- What is left to do in the search that a run is in. -/
def Pending (r : Run) (code : Code) (search : Search) (A : Attempt) : Prop :=
  match r.phase with
  | .pick => code.Gives search (.ways r.goal r.stack.frames) A
  | .enter path => code.Gives search (.ways r.goal (.follow path :: r.stack.frames)) A
  | .answer found => A = ⟨found, false⟩

/-- What a run comes to in the end. -/
def ComesTo (r : Run) (code : Code) (search : Search) (last : Attempt) : Prop :=
  ∃ A, r.Pending code search A ∧ r.Ends code search A last

theorem comesTo_pick {r : Run} (h : r.pick.ComesTo code search last) :
    ∃ A, code.Gives search (.ways r.goal r.stack.frames) A ∧ r.Ends code search A last :=
  h

/-- To end a way is one of the moves. -/
theorem comesTo_finish {r : Run} {position : Nat} {slots : Slots}
    (h : (r.finish search position slots).ComesTo code search last) :
    ∃ A, code.GivesAfter search r.goal (.finish position slots) r.stack.frames A ∧
      r.Ends code search A last := by
  unfold finish at h
  split at h
  · rename_i hadmits
    obtain ⟨A, rfl, hends⟩ := h
    exact ⟨_, ⟨_, .admitted hadmits, .inl ⟨by simp [Attempt.fruitless], rfl⟩⟩, hends⟩
  · rename_i hrefuses
    obtain ⟨A, hways, hends⟩ := comesTo_pick h
    exact ⟨A, ⟨_, .refused (by simpa using hrefuses), .inr ⟨rfl, hways⟩⟩, hends⟩

/-- To go on with a way is to have it before all others. -/
theorem comesTo_follow {r : Run} {frame : Frame}
    (h : (r.follow search frame).ComesTo code search last) :
    ∃ A, code.Gives search (.ways r.goal (frame :: r.stack.frames)) A ∧
      r.Ends code search A last := by
  cases frame with
  | follow path => exact h
  | accept position slots =>
    obtain ⟨A, ⟨B, hmove, hsequel⟩, hends⟩ := comesTo_finish h
    exact ⟨A, Code.gives_cons_iff.mpr ⟨B, .accept hmove, hsequel⟩, hends⟩

/-- What several ways lead to, of which the first is followed and the others wait. -/
theorem comesTo_go {r : Run} (ways : List Frame) {cut : Bool} {stack : Stack}
    (hstack : stack.frames = ways.tail ++ if cut then [] else r.stack.frames)
    (h : (match ways.head? with
      | none => { r with stack := stack, committed := r.committed || (cut && !r.goal.isBody) }.pick
      | some first =>
        { r with stack := stack, committed := r.committed || (cut && !r.goal.isBody) }.follow search
          first).ComesTo code search last) :
    ∃ A, code.GivesAfter search r.goal (.go ways cut) r.stack.frames A ∧
      r.Ends code search A last := by
  have hways : ∃ A, code.Gives search (.ways r.goal (ways ++ if cut then [] else r.stack.frames)) A ∧
      Concludes code search r.outer A.found
        (r.committed || (cut && !r.goal.isBody) || (A.committed && !r.goal.isBody)) last := by
    cases ways with
    | nil =>
      obtain ⟨A, hways, hends⟩ := comesTo_pick h
      exact ⟨A, by simpa [hstack] using hways, hends⟩
    | cons first others =>
      obtain ⟨A, hways, hends⟩ := comesTo_follow h
      exact ⟨A, by simpa [hstack] using hways, hends⟩
  obtain ⟨A, hways, hends⟩ := hways
  cases cut with
  | false =>
    obtain ⟨B, hfirst, hsequel⟩ := Code.gives_append_iff.mp hways
    exact ⟨A, ⟨B, .go hfirst, hsequel⟩, by simpa [Ends] using hends⟩
  | true =>
    rw [if_pos rfl, List.append_nil] at hways
    refine ⟨⟨A.found, true⟩, ⟨_, .cut hways, .inl ⟨by simp [Attempt.fruitless], rfl⟩⟩, ?_⟩
    have hmark : (r.committed || (true && !r.goal.isBody) || (A.committed && !r.goal.isBody)) =
        (r.committed || (true && !r.goal.isBody)) := by
      cases r.committed <;> cases A.committed <;> cases r.goal.isBody <;> rfl
    rw [hmark] at hends
    exact hends

/-- A search for a body comes to what the search around it comes to with the answer. -/
theorem comesTo_body {r : Run} {s : Suspended} {stack : Stack}
    (hstack : stack.frames = [s.body.way s.path s.tried])
    (h : Run.ComesTo ⟨.pick, s.body.goal s.path, stack, s :: r.outer, r.committed⟩ code search
      last) :
    ∃ (B : Attempt) (move : Move) (A : Attempt),
      code.Gives search (.body s.body s.path s.tried) B ∧
        code.resume search.input s.goal.isBody s.path B.found = .ok move ∧
          code.GivesAfter search s.goal move s.stack.frames A ∧
            Concludes code search r.outer A.found
              (r.committed || (A.committed && !s.goal.isBody)) last := by
  obtain ⟨first, hfirst, hends⟩ := h
  have hmark : (r.committed || (first.committed && !(s.body.goal s.path).isBody)) = r.committed := by
    simp [Body.goal, Goal.isBody]
  simp only [Pending, hstack, Code.gives_singleton_iff] at hfirst
  simp only [Ends, hmark] at hends
  cases hends with
  | resumed hanswer hresume hmove hrest =>
    rcases hanswer with ⟨hstays, rfl⟩ | ⟨hback, B, hbody, rfl⟩
    · exact ⟨first, _, _, .answered hfirst hstays, hresume, hmove, hrest⟩
    · exact ⟨B, _, _, .back hfirst hback hbody, hresume, hmove, hrest⟩

end Run

/-! Steps. -/

namespace Run

variable {code : Code} {search : Search} {P : Path → Prop}

/-- A move leads to a run that comes to nothing else than the move does. -/
theorem move_comesTo (hbailout : search.bailout = none) (r : Run) (move : Move) :
    Grants (r.move search code.groups move) fun next => ∀ last, next.ComesTo code search last →
      ∃ A, code.GivesAfter search r.goal move r.stack.frames A ∧ r.Ends code search A last := by
  cases move with
  | finish position slots => exact grants_pure fun _ h => comesTo_finish h
  | ask body path =>
    refine (enterBody_ensures _ fun stack hstack last h => ?_).grants
    obtain ⟨B, next, A, hbody, hresume, ⟨C, hnext, hsequel⟩, hends⟩ := comesTo_body hstack h
    exact ⟨A, ⟨C, .ask hbody hresume hnext, hsequel⟩, hends⟩
  | go ways cut =>
    unfold Run.move
    dsimp only
    have hreset : (if cut then r.stack.reset else r.stack).frames =
        if cut then [] else r.stack.frames := by
      cases cut <;> rfl
    cases ways with
    | nil => exact grants_pure fun last h => comesTo_go [] hreset h
    | cons first others =>
      refine grants_bind (pushAll_ensures hbailout others.reverse _).grants fun stack hstack => ?_
      rw [List.reverse_reverse, hreset] at hstack
      exact grants_pure fun last h => comesTo_go (first :: others) hstack h

theorem enter_comesTo (hbailout : search.bailout = none) {r : Run} {path : Path}
    (hphase : r.phase = .enter path) : Grants (r.enter code search path) fun next =>
      ∀ last, next.ComesTo code search last → r.ComesTo code search last := by
  unfold enter
  by_cases hseen : path.place ∈ path.trail
  · rw [if_pos (List.contains_iff_mem.mpr hseen)]
    refine grants_pure fun last h => ?_
    obtain ⟨A, hways, hends⟩ := comesTo_pick h
    refine ⟨A, ?_, hends⟩
    simp only [Pending, hphase]
    exact .passed (.repeated hseen) hways
  · rw [if_neg (by simpa using hseen)]
    refine grants_bind (Search.checkpoint_ensures hbailout _ _).grants fun admitted hadmitted => ?_
    rw [hadmitted, if_pos rfl]
    cases henter : code.enter search.input r.goal.isBody path.entered with
    | error e =>
      rw [Path.entered] at henter
      simp only [henter]
      exact grants_throw e
    | ok move =>
      have henter' := henter
      simp only [Path.entered] at henter'
      simp only [henter']
      refine grants_mono (move_comesTo hbailout r move) fun next hcomes last h => ?_
      obtain ⟨A, ⟨B, hgives, hsequel⟩, hends⟩ := hcomes last h
      refine ⟨A, ?_, hends⟩
      simp only [Pending, hphase]
      exact Code.gives_cons_iff.mpr ⟨B, .entered hseen henter hgives, hsequel⟩

/-- A search for a body that has its answer is tried again further back, or left for the one around
it. -/
theorem leave_comesTo (hbailout : search.bailout = none) {r : Run} {s : Suspended}
    {outer : List Suspended} {found : Option Found} (hphase : r.phase = .answer found)
    (houter : r.outer = s :: outer) : Grants (r.leave code search s outer found) fun next =>
      ∀ last, next.ComesTo code search last → r.ComesTo code search last := by
  have hcomes (A last : Attempt) (h : Concludes code search (s :: outer) found r.committed last) :
      r.ComesTo code search last := by
    refine ⟨⟨found, false⟩, by simp only [Pending, hphase], ?_⟩
    simpa [Ends, houter] using h
  unfold leave
  dsimp only
  by_cases hback : s.body.GoesBack s.tried found
  · rw [if_pos (by simpa [Body.GoesBack, and_assoc] using hback)]
    refine (enterBody_ensures _ fun stack hstack last h => ?_).grants
    obtain ⟨B, move, A, hbody, hresume, hmove, hends⟩ := comesTo_body hstack h
    exact hcomes A last (.resumed (.inr ⟨hback, B, hbody, rfl⟩) hresume hmove hends)
  · rw [if_neg (by simpa [Body.GoesBack, and_assoc] using hback)]
    cases hresume : code.resume search.input s.goal.isBody s.path found with
    | error e => exact grants_throw e
    | ok move =>
      refine grants_mono (move_comesTo hbailout _ move) fun next hmove last h => ?_
      obtain ⟨A, hgives, hends⟩ := hmove last h
      exact hcomes A last (.resumed (.inl ⟨hback, rfl⟩) hresume hgives hends)

/-- What follows from a step: the run keeps to the paths and comes to nothing new, or it has come
to its end. -/
def Goes (r : Run) (code : Code) (search : Search) (P : Path → Prop) : Progress → Prop
  | .running next =>
    next.Within P ∧ ∀ last, next.ComesTo code search last → r.ComesTo code search last
  | .finished attempt => r.ComesTo code search attempt

/-- After a step, a run comes to nothing that it would not have come to before. -/
theorem step_ensures (hbailout : search.bailout = none) (hclosed : code.ClosedOn P) {r : Run}
    (hr : r.Within P) : Ensures (r.step code search) (r.Goes code search P) := by
  unfold step
  cases hphase : r.phase with
  | enter path =>
    exact ensures_map ((enter_keeps hclosed hr hphase).and_grants (enter_comesTo hbailout hphase))
  | answer found =>
    cases houter : r.outer with
    | nil =>
      refine ensures_pure ⟨⟨found, false⟩, by simp only [Pending, hphase], ?_⟩
      simp only [Ends, houter, Bool.false_and, Bool.or_false]
      exact .done
    | cons s outer =>
      exact ensures_map ((leave_keeps hclosed hr houter found).and_grants
        (leave_comesTo hbailout hphase houter))
  | pick =>
    cases hframes : r.stack.frames with
    | nil =>
      simp only [Stack.pop?, hframes]
      refine ensures_pure ⟨⟨hr.frames, fun _ h => (by cases h), hr.outer⟩, fun last h => ?_⟩
      obtain ⟨A, rfl, hends⟩ := h
      refine ⟨_, ?_, hends⟩
      simp only [Pending, hphase, hframes]
      exact .nothing
    | cons frame rest =>
      simp only [Stack.pop?, hframes]
      have hall := hr.frames
      rw [hframes] at hall
      refine ensures_bind (Search.checkpoint_ensures hbailout _ _) fun admitted hadmitted => ?_
      rw [hadmitted, if_pos rfl]
      refine ensures_pure ⟨?_, fun last h => ?_⟩
      · exact Within.follow ⟨fun f hf => hall f (List.mem_cons_of_mem _ hf),
          fun _ h => (by cases h), hr.outer⟩ (hall frame List.mem_cons_self)
      · obtain ⟨A, hways, hends⟩ := comesTo_follow h
        refine ⟨A, ?_, hends⟩
        simp only [Pending, hphase, hframes]
        exact hways

/-- A run that ends has come to its end. -/
theorem iterate_ensures (hbailout : search.bailout = none) (hclosed : code.ClosedOn P)
    (fuel : Nat) {r : Run} (hr : r.Within P) :
    Ensures (iterate code search fuel r) (r.ComesTo code search) := by
  induction fuel generalizing r with
  | zero => exact ensures_throw_limit _
  | succ fuel ih =>
    unfold iterate
    refine ensures_bind (step_ensures hbailout hclosed hr) fun progress hprogress => ?_
    cases progress with
    | finished attempt => exact ensures_pure hprogress
    | running next => exact ensures_mono (ih hprogress.1) hprogress.2

end Run

/-- A search ends as its first way does, unless it is stopped at a bound. -/
theorem Code.search_ensures {code : Code} {search : Search} {P : Path → Prop}
    (hbailout : search.bailout = none) (hclosed : code.ClosedOn P) {initial start : Nat}
    (hinitial : P (.start initial start (.unset code.groups))) :
    Ensures (code.search search initial start)
      (code.Gives search (.way .whole (.follow (.start initial start (.unset code.groups))))) := by
  unfold Code.search
  apply ensures_get_bind
  intro t
  dsimp only
  rcases Run.push_cases (Stack.new t.limits.maxDepth code.groups)
      (.follow (.start initial start (.unset code.groups))) with
    ⟨stack, hpush, hframes⟩ | ⟨fault, hpush⟩
  · simp only [hpush]
    have hframes : stack.frames = [.follow (.start initial start (.unset code.groups))] := hframes
    have hstart : (Run.start stack).Within P := Code.within_start hinitial hpush
    refine ensures_mono (Run.iterate_ensures hbailout hclosed _ hstart) fun attempt hattempt => ?_
    obtain ⟨A, hways, hends⟩ := hattempt
    simp only [Run.Pending, Run.start, hframes, Code.gives_singleton_iff] at hways
    cases hends
    simpa [Run.start, Goal.isBody] using hways
  · simp only [hpush]
    exact ensures_throw_limit fault

end RegexEngine
