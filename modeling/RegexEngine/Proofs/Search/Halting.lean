import RegexEngine.Proofs.Search.Along
import RegexEngine.Proofs.Search.Reaching

/-!
Runs that halt. A run halts if each of its steps is the last one or leads to a run that halts,
whatever was used up before; until then no more searches wait for bodies than a bound says.

How a way ends does not matter to the search that it is part of, as long as the search halts with
every answer that may come of its first path, and halts if it takes the next of its waiting ways. So
a way is looked at by itself: it halts if it does in every search of which this is true. A way that
asks for a body has one search less to nest when the body is searched for, and a lookbehind is tried
from finitely many places.
-/

namespace RegexEngine

open Tracked

namespace Run

/-- Whatever the tracker holds, the run ends, and never more than so many searches wait in it. -/
inductive Halts (code : Code) (search : Search) (most : Nat) : Run → Prop
  | intro {r : Run} : r.outer.length ≤ most →
      (∀ (t t' : Tracker) (next : Run), (r.step code search).run t = (.ok (.running next), t') →
        Halts code search most next) → Halts code search most r

variable {code : Code} {search : Search} {most : Nat} {r next : Run}

theorem Halts.waiting_le (h : r.Halts code search most) : r.outer.length ≤ most := by
  cases h with
  | intro hwaiting _ => exact hwaiting

theorem Halts.of_step (h : r.Halts code search most) {t t' : Tracker}
    (hstep : (r.step code search).run t = (.ok (.running next), t')) :
    next.Halts code search most := by
  cases h with
  | intro _ hnext => exact hnext t t' next hstep

/-- After finitely many steps the run is at its end. -/
theorem Halts.exists_steps (h : r.Halts code search most) (t : Tracker) :
    ∃ n, ∀ next t', (steps code search n r).run t ≠ (.ok (.running next), t') := by
  induction h generalizing t with
  | @intro r _ _ ih =>
    rcases hstep : (r.step code search).run t with ⟨e | progress, t'⟩
    · refine ⟨1, fun next t'' => ?_⟩
      rw [run_steps_succ, hstep]
      rintro ⟨⟩
    · cases progress with
      | finished attempt =>
        refine ⟨1, fun next t'' => ?_⟩
        rw [run_steps_succ, hstep]
        rintro ⟨⟩
      | running later =>
        obtain ⟨n, hn⟩ := ih t t' later hstep t'
        refine ⟨n + 1, fun next t'' => ?_⟩
        rw [run_steps_succ, hstep]
        exact hn next t''

/-- However many steps are made, what is left halts. -/
theorem Halts.of_steps (h : r.Halts code search most) {n : Nat} {t t' : Tracker}
    (hsteps : (steps code search n r).run t = (.ok (.running next), t')) :
    next.Halts code search most := by
  induction n generalizing r t with
  | zero =>
    cases hsteps
    exact h
  | succ n ih =>
    rw [run_steps_succ] at hsteps
    rcases hstep : (r.step code search).run t with ⟨e | progress, t''⟩
    · rw [hstep] at hsteps
      cases hsteps
    · rw [hstep] at hsteps
      cases progress with
      | finished attempt => cases hsteps
      | running later => exact ih (h.of_step hstep) hsteps

theorem halts_of_grants (hwaiting : r.outer.length ≤ most)
    (h : Grants (r.step code search) fun progress =>
      ∀ next, progress = .running next → next.Halts code search most) :
    r.Halts code search most :=
  .intro hwaiting fun t t' next hstep => h t t' _ hstep next rfl

theorem halts_of_running (hwaiting : r.outer.length ≤ most) {x : Tracked Run}
    (hstep : r.step code search = .running <$> x) (h : Grants x (·.Halts code search most)) :
    r.Halts code search most := by
  apply halts_of_grants hwaiting
  rw [hstep]
  refine grants_map (grants_mono h fun next hnext => ?_)
  rintro _ ⟨⟩
  exact hnext

end Run

/-! Searches around a way. -/

section

variable {code : Code} {search : Search} {most nested : Nat} {R : Path → Path → Prop}
  {origin : Path} {goal : Goal} {stack stack' : Stack} {outer : List Suspended}

/-- A search halts whatever comes of its first path, and if it takes the next of its waiting
ways. -/
structure Run.Rests (code : Code) (search : Search) (most : Nat) (R : Path → Path → Prop)
    (origin : Path) (goal : Goal) (stack : Stack) (outer : List Suspended) : Prop where
  answers : ∀ found stack committed, Found.Follows R origin found →
    Run.Halts code search most ⟨.answer found, goal, stack, outer, committed⟩
  picks : ∀ committed, Run.Halts code search most ⟨.pick, goal, stack, outer, committed⟩

/-- A way halts in every search that halts however the way ends. It nests at most so many
searches. -/
def Frame.Halts (code : Code) (search : Search) (most : Nat) (R : Path → Path → Prop)
    (nested : Nat) (frame : Frame) : Prop :=
  ∀ (origin : Path) (goal : Goal) (stack : Stack) (outer : List Suspended), frame.Follows R origin →
    outer.length + nested ≤ most → Run.Rests code search most R origin goal stack outer →
      ∀ phase committed,
        (Run.follow ⟨phase, goal, stack, outer, committed⟩ search frame).Halts code search most

theorem Frame.Halts.mono {frame : Frame} (h : frame.Halts code search most R nested) {nested' : Nat}
    (hle : nested ≤ nested') : frame.Halts code search most R nested' := by
  intro origin goal stack outer hfollows hnested
  exact h origin goal stack outer hfollows (by omega)

namespace Run

theorem Rests.waiting_le (h : Rests code search most R origin goal stack outer) :
    outer.length ≤ most :=
  (h.picks false).waiting_le

/-- A search in which no way waits has found nothing. -/
theorem Rests.emptied (h : Rests code search most R origin goal stack outer)
    (hframes : stack'.frames = []) : Rests code search most R origin goal stack' outer := by
  refine ⟨h.answers, fun committed => halts_of_grants h.waiting_le ?_⟩
  simp only [step, Stack.pop?, hframes]
  apply grants_pure
  rintro next ⟨⟩
  apply h.answers
  rintro f ⟨⟩

/-- One more way may wait, if it halts. -/
theorem Rests.pushed (h : Rests code search most R origin goal stack outer) {frame : Frame}
    (hframe : frame.Halts code search most R nested) (hfollows : frame.Follows R origin)
    (hnested : outer.length + nested ≤ most) (hpush : stack.push frame = .ok stack') :
    Rests code search most R origin goal stack' outer := by
  have hstack' : stack' = { stack with frames := frame :: stack.frames } := by
    unfold Stack.push at hpush
    split at hpush
    · cases hpush
    · exact (Except.ok.inj hpush).symm
  subst hstack'
  refine ⟨h.answers, fun committed => halts_of_grants h.waiting_le ?_⟩
  simp only [step, Stack.pop?]
  apply grants_bind_any
  intro admitted
  split
  · apply grants_pure
    rintro next ⟨⟩
    exact hframe origin goal stack outer hfollows hnested h .pick committed
  · apply grants_pure
    rintro next ⟨⟩
    exact h.picks committed

theorem Rests.pushedAll (hnested : outer.length + nested ≤ most) {frames : List Frame}
    (hframes : ∀ frame ∈ frames,
      frame.Halts code search most R nested ∧ frame.Follows R origin) : ∀ {stack : Stack},
    Rests code search most R origin goal stack outer → Grants (pushAll search stack frames)
      fun stack' => Rests code search most R origin goal stack' outer := by
  induction frames with
  | nil => exact fun h => grants_pure h
  | cons frame rest ih =>
    obtain ⟨⟨hhalts, hfollows⟩, hrest⟩ := List.forall_mem_cons.mp hframes
    intro stack h
    unfold pushAll
    apply grants_bind_any
    intro admitted
    split
    · have hpushed : Grants (pushAll.liftExcept (stack.push frame)) fun stack' =>
          Rests code search most R origin goal stack' outer := by
        intro t t' stack' hrun
        cases hpush : stack.push frame with
        | error e =>
          rw [hpush] at hrun
          cases hrun
        | ok pushed =>
          rw [hpush] at hrun
          cases hrun
          exact h.pushed hhalts hfollows hnested hpush
      exact grants_bind hpushed fun stack' hstack' => ih hrest hstack'
    · exact ih hrest h

/-- A search goes on with the end of a match. -/
theorem Rests.finish_halts (h : Rests code search most R origin goal stack outer) {position : Nat}
    {slots : Slots} (hends : origin.EndsAs R position slots) (phase : Phase) (committed : Bool) :
    (Run.finish ⟨phase, goal, stack, outer, committed⟩ search position slots).Halts code search
      most := by
  unfold finish
  split
  · apply h.answers
    rintro f ⟨⟩
    exact hends
  · exact h.picks committed

/-- A search goes on with several ways, if all of them halt. -/
theorem Rests.go_halts (h : Rests code search most R origin goal stack outer)
    (hnested : outer.length + nested ≤ most) {ways : List Frame} (hways : ∀ frame ∈ ways,
      frame.Halts code search most R nested ∧ frame.Follows R origin)
    (cut : Bool) (phase : Phase) (committed : Bool) (groups : Nat) :
    Grants (Run.move ⟨phase, goal, stack, outer, committed⟩ search groups (.go ways cut))
      (·.Halts code search most) := by
  have hcut : Rests code search most R origin goal (if cut then stack.reset else stack) outer := by
    split
    · exact h.emptied rfl
    · exact h
  unfold move
  cases ways with
  | nil => exact grants_pure (hcut.picks _)
  | cons first others =>
    obtain ⟨⟨hhalts, hfollows⟩, hothers⟩ := List.forall_mem_cons.mp hways
    have hwaiting : ∀ frame ∈ others.reverse,
        frame.Halts code search most R nested ∧ frame.Follows R origin :=
      fun frame hframe => hothers frame (List.mem_reverse.mp hframe)
    refine grants_bind (hcut.pushedAll hnested hwaiting) fun stack' hstack' => grants_pure ?_
    exact hhalts origin goal stack' outer hfollows hnested hstack' phase _

end Run

theorem Frame.accept_halts (position : Nat) (slots : Slots) (nested : Nat) :
    (Frame.accept position slots).Halts code search most R nested :=
  fun _ _ _ _ hfollows _ h phase committed => h.finish_halts hfollows phase committed

/-! Bodies. -/

/-- All that may come of a path halts. -/
def Path.LeadsToHalts (code : Code) (search : Search) (most : Nat) (R : Path → Path → Prop)
    (nested : Nat) (path : Path) : Prop :=
  ∀ next, R path next → (Frame.follow next).Halts code search most R nested

theorem Path.LeadsToHalts.frame_halts {path : Path} {frame : Frame}
    (h : path.LeadsToHalts code search most R nested) (hfollows : frame.Follows R path) :
    frame.Halts code search most R nested := by
  cases frame with
  | follow next => exact h next hfollows
  | accept position slots => exact Frame.accept_halts position slots nested

namespace Run

/-- The search for a body halts, and so does what comes after it. The body nests fewer searches than
the way that asks for it. -/
theorem Rests.enterBody_halts (hR : code.Respects search.input R)
    (h : Rests code search most R origin goal stack outer) (hnested : outer.length + nested ≤ most)
    {body : Body} {path : Path} (hpath : R origin path)
    (hawaits : code.Awaits search.input R body path)
    (hleads : path.LeadsToHalts code search most R nested) {inner : Nat} (hinner : inner < nested)
    (hbody : ∀ tried, body.TriedFrom path tried →
      (Frame.follow (body.origin path tried)).Halts code search most R inner) :
    ∀ (tried : Nat) (phase : Phase) (committed : Bool), body.TriedFrom path tried →
      Grants (Run.enterBody ⟨phase, goal, stack, outer, committed⟩ code.groups
        ⟨path, body, goal, stack, tried⟩) (·.Halts code search most) := by
  intro tried
  induction tried using Nat.strongRecOn with
  | _ tried ih =>
    intro phase committed htried
    unfold enterBody
    apply grants_get_bind
    intro t
    dsimp only
    have hwaiting : (⟨path, body, goal, stack, tried⟩ :: outer : List Suspended).length ≤ most := by
      rw [List.length_cons]
      omega
    -- the answer is tried further back, or left for the way that waits for it
    have hanswers (found : Option Found) (stack' : Stack) (committed : Bool)
        (hfound : Found.Follows R (body.origin path tried) found) :
        Halts code search most ⟨.answer found, body.goal path, stack',
          ⟨path, body, goal, stack, tried⟩ :: outer, committed⟩ := by
      apply halts_of_running hwaiting rfl
      unfold leave
      dsimp only
      split
      · rename_i hback
        simp only [Bool.and_eq_true, decide_eq_true_iff] at hback
        exact ih (tried - 1) (by omega) .pick committed (htried.back hback.1.2)
      · cases hresume : code.resume search.input goal.isBody path found with
        | error e => exact grants_throw e
        | ok next =>
          obtain ⟨ways, cut, rfl, hways⟩ := hawaits _ _ _ _ htried hfound hresume
          apply h.go_halts hnested
          intro frame hframe
          exact ⟨hleads.frame_halts (hways frame hframe), (hways frame hframe).after hR.toChains hpath⟩
    have hempty : Rests code search most R (body.origin path tried) (body.goal path)
        (Stack.nested t.limits.maxDepth code.groups stack.depth)
        (⟨path, body, goal, stack, tried⟩ :: outer) := by
      refine ⟨hanswers, fun committed => halts_of_grants hwaiting ?_⟩
      simp only [step, Stack.pop?, Stack.nested]
      apply grants_pure
      rintro next ⟨⟩
      apply hanswers
      rintro f ⟨⟩
    split
    · exact grants_throw _
    · rename_i stack' hpush
      apply grants_pure
      apply Rests.picks
      apply hempty.pushed (hbody tried htried) (hR.refl _) (by rw [List.length_cons]; omega) hpush

/-- A search does what a path asks for, if all that comes of the path halts. -/
theorem Rests.move_halts (hR : code.Respects search.input R)
    (h : Rests code search most R origin goal stack outer) (hnested : outer.length + nested ≤ most)
    {path : Path} (hpath : R origin path) {move : Move}
    (hmove : code.Follows search.input R path move)
    (hleads : path.LeadsToHalts code search most R nested)
    (hbody : ∀ body next, move = .ask body next → ∃ inner < nested, ∀ tried,
      body.TriedFrom next tried →
        (Frame.follow (body.origin next tried)).Halts code search most R inner)
    (phase : Phase) (committed : Bool) :
    Grants (Run.move ⟨phase, goal, stack, outer, committed⟩ search code.groups move)
      (·.Halts code search most) := by
  cases move with
  | finish position slots =>
    exact grants_pure (h.finish_halts (hmove.after hR.toChains hpath) phase committed)
  | go ways cut =>
    apply h.go_halts hnested
    intro frame hframe
    exact ⟨hleads.frame_halts (hmove frame hframe), (hmove frame hframe).after hR.toChains hpath⟩
  | ask body next =>
    obtain ⟨inner, hinner, hinside⟩ := hbody body next rfl
    have hnext : next.LeadsToHalts code search most R nested :=
      fun last hlast => hleads last (hR.trans hmove.1 hlast)
    exact h.enterBody_halts hR hnested (hR.trans hpath hmove.1) hmove.2 hnext hinner hinside
      next.position phase committed (body.triedFrom_self next)

end Run

/-- A way halts if all that comes of it does once its place is entered, and the body that it asks
for there. -/
theorem Frame.follow_halts (hR : code.Respects search.input R) {path : Path}
    (h : path.place ∉ path.trail → ∀ inBody move,
      code.enter search.input inBody path.entered = .ok move →
        path.entered.LeadsToHalts code search most R nested ∧
          ∀ body next, move = .ask body next → ∃ inner < nested, ∀ tried,
            body.TriedFrom next tried →
              (Frame.follow (body.origin next tried)).Halts code search most R inner) :
    (Frame.follow path).Halts code search most R nested := by
  intro origin goal stack outer hfollows hnested hrests phase committed
  change Run.Halts code search most ⟨.enter path, goal, stack, outer, committed⟩
  apply Run.halts_of_running hrests.waiting_le rfl
  unfold Run.enter
  split
  · exact grants_pure (hrests.picks committed)
  · rename_i hnew
    apply grants_bind_any
    intro admitted
    split
    · dsimp only
      split
      · rename_i next hmove
        obtain ⟨hleads, hbody⟩ := h (by simpa using hnew) _ next hmove
        exact hrests.move_halts hR hnested (hR.trans hfollows (hR.entered path))
          (hR.enter _ _ _ hmove) hleads hbody (.enter path) committed
      · exact grants_throw _
    · exact grants_pure (hrests.picks committed)

end

/-! Whole searches. -/

namespace Code

variable {code : Code} {search : Search} {initial start most : Nat}

/-- A search from a place, with any bounds, comes to an end after finitely many steps, and never
more than so many searches wait for bodies in it. -/
structure Stops (code : Code) (search : Search) (initial start most : Nat) : Prop where
  ends : ∀ maxDepth stack, (Stack.new maxDepth code.groups).push
    (.follow (.start initial start (.unset code.groups))) = .ok stack → ∀ t, ∃ n, ∀ next t',
      (Run.steps code search n (.start stack)).run t ≠ (.ok (.running next), t')
  waiting_le : ∀ maxDepth stack, (Stack.new maxDepth code.groups).push
    (.follow (.start initial start (.unset code.groups))) = .ok stack → ∀ t n next t',
      (Run.steps code search n (.start stack)).run t = (.ok (.running next), t') →
        next.outer.length ≤ most

/-- A search stops if its first way halts. -/
theorem stops_of_halts {R : Path → Path → Prop} (hR : code.Respects search.input R)
    (h : (Frame.follow (.start initial start (.unset code.groups))).Halts code search most R most) :
    code.Stops search initial start most := by
  have hanswers (found : Option Found) (stack : Stack) (committed : Bool) :
      Run.Halts code search most ⟨.answer found, .whole, stack, [], committed⟩ := by
    apply Run.halts_of_grants (Nat.zero_le most)
    apply grants_pure
    rintro next ⟨⟩
  have hstart (maxDepth : Nat) (stack : Stack) (hpush : (Stack.new maxDepth code.groups).push
      (.follow (.start initial start (.unset code.groups))) = .ok stack) :
      (Run.start stack).Halts code search most := by
    have hempty : Run.Rests code search most R (.start initial start (.unset code.groups)) .whole
        (Stack.new maxDepth code.groups) [] := by
      refine ⟨fun found stack committed _ => hanswers found stack committed, fun committed => ?_⟩
      apply Run.halts_of_grants (Nat.zero_le most)
      apply grants_pure
      rintro next ⟨⟩
      exact hanswers none _ committed
    exact (hempty.pushed h (hR.refl _) (Nat.le_of_eq (Nat.zero_add most)) hpush).picks false
  constructor
  · intro maxDepth stack hpush t
    exact (hstart maxDepth stack hpush).exists_steps t
  · intro maxDepth stack hpush t n next t' hsteps
    exact ((hstart maxDepth stack hpush).of_steps hsteps).waiting_le

end Code

end RegexEngine
