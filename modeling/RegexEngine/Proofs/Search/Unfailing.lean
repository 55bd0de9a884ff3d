import RegexEngine.Proofs.Search.Along

/-!
Searches that fail at bounds only, whatever a manager says to them. A code may fail where a place is
not its own. `ClosedOn` says that it never does on certain paths and keeps to them. Then a step
either is stopped at a bound or leaves the run on such paths, by cases on the phase of the run; and
by induction on the steps, no search fails otherwise. A manager may have a search abandon a way, drop
one, or stop, so nothing is said of what is found.
-/

namespace RegexEngine

namespace Tracked

/-- What only fails at a bound does so with an error of a bound. -/
theorem Ensures.isLimit {α : Type} {x : Tracked α} {post : α → Prop} (h : Ensures x post)
    {t : Tracker} {e : Error} (he : (x.run t).1 = .error e) : e.IsLimit := by
  rcases h t with hstop | ⟨value, hok, _⟩
  · rwa [he] at hstop
  · cases he.symm.trans hok

end Tracked

open Tracked

namespace Search

variable (search : Search) (depth position : Nat)

theorem checkpoint_unfailing : Ensures (search.checkpoint depth position) fun _ => True := by
  unfold checkpoint
  refine ensures_bind (Tracker.checkpoint_ensures _ _) fun _ _ => ?_
  split
  · exact ensures_pure trivial
  · apply ensures_get_bind
    intro t
    split
    · exact ensures_pure trivial
    · exact ensures_pure trivial
    · exact fun _ => .inl (LimitFault.error_isLimit _)

theorem checkPush_unfailing : Ensures (search.checkPush depth position) fun _ => True := by
  unfold checkPush
  exact ensures_bind (Tracker.checkPush_ensures depth) fun _ _ => search.checkpoint_unfailing _ _

end Search

/-! Codes that never fail on certain paths. -/

/-- The path of a way is one of some. -/
def Frame.Within (P : Path → Prop) : Frame → Prop
  | follow path => P path
  | accept _ _ => True

/-- A move keeps to some paths. A body may start with any slots, wherever it is tried. -/
def Move.Within (P : Path → Prop) : Move → Prop
  | go ways _ => ∀ frame ∈ ways, frame.Within P
  | ask body path => (∀ position slots, P (.start body.start position slots)) ∧ P path
  | finish _ _ => True

/-- On some paths the code always has a move to make, and keeps to them. -/
structure Code.ClosedOn (code : Code) (P : Path → Prop) : Prop where
  enter : ∀ (input : Array Char) (inBody : Bool) (path : Path), P path →
    ∃ move, code.enter input inBody path.entered = .ok move ∧ move.Within P
  resume : ∀ (input : Array Char) (inBody : Bool) (path : Path) (found : Option Found),
    P path → ∃ move, code.resume input inBody path found = .ok move ∧ move.Within P

/-- A suspended search keeps to some paths. -/
structure Suspended.Within (P : Path → Prop) (s : Suspended) : Prop where
  frames : ∀ frame ∈ s.stack.frames, frame.Within P
  path : P s.path
  body : ∀ position slots, P (.start s.body.start position slots)

namespace Run

variable {code : Code} {search : Search} {P : Path → Prop}

/-- A run keeps to some paths. -/
structure Within (P : Path → Prop) (r : Run) : Prop where
  frames : ∀ frame ∈ r.stack.frames, frame.Within P
  entering : ∀ path, r.phase = .enter path → P path
  outer : ∀ s ∈ r.outer, s.Within P

theorem Within.pick {r : Run} (h : r.Within P) : r.pick.Within P :=
  ⟨h.frames, by simp [Run.pick], h.outer⟩

theorem Within.finish {r : Run} (h : r.Within P) (position : Nat) (slots : Slots) :
    (r.finish search position slots).Within P := by
  unfold Run.finish
  split
  · exact ⟨h.frames, by simp, h.outer⟩
  · exact h.pick

theorem Within.follow {r : Run} {frame : Frame} (h : r.Within P) (hframe : frame.Within P) :
    (r.follow search frame).Within P := by
  cases frame with
  | follow path => exact ⟨h.frames, fun _ hphase => by cases hphase; exact hframe, h.outer⟩
  | accept position slots => exact h.finish position slots

/-- A search for a body starts with its one way. -/
theorem enterBody_ensures {r : Run} {s : Suspended} {post : Run → Prop} (groups : Nat)
    (h : ∀ stack : Stack, stack.frames = [s.body.way s.path s.tried] →
      post ⟨.pick, s.body.goal s.path, stack, s :: r.outer, r.committed⟩) :
    Ensures (r.enterBody groups s) post := by
  unfold enterBody
  apply ensures_get_bind
  intro t
  dsimp only
  rcases push_cases (Stack.nested t.limits.maxDepth groups s.stack.depth)
      (.follow (.start s.body.start s.tried s.path.slots)) with
    ⟨stack, hpush, hframes⟩ | ⟨fault, hpush⟩
  · simp only [hpush]
    exact ensures_pure (h stack hframes)
  · simp only [hpush]
    exact ensures_throw_limit fault

/-- A search for a body keeps to the paths of the one around it. -/
theorem within_body {r : Run} {s : Suspended} {stack : Stack}
    (hstack : stack.frames = [s.body.way s.path s.tried]) (hs : s.Within P)
    (houter : ∀ s ∈ r.outer, s.Within P) :
    Run.Within P ⟨.pick, s.body.goal s.path, stack, s :: r.outer, r.committed⟩ := by
  refine ⟨fun frame hframe => ?_, by simp, fun s' hs' => ?_⟩
  · simp only [hstack, List.mem_singleton] at hframe
    rw [hframe]
    exact hs.body _ _
  · rcases List.mem_cons.mp hs' with rfl | hs'
    · exact hs
    · exact houter s' hs'

end Run

/-- A run that goes on keeps to some paths. -/
def Progress.Within (P : Path → Prop) : Progress → Prop
  | running next => next.Within P
  | finished _ => True

namespace Run

variable {code : Code} {search : Search} {P : Path → Prop} {r : Run}

theorem pushAll_unfailing (search : Search) (ways : List Frame) (stack : Stack) :
    Ensures (pushAll search stack ways) fun _ => True := by
  induction ways generalizing stack with
  | nil => exact ensures_pure trivial
  | cons frame rest ih =>
    unfold pushAll
    refine ensures_bind (search.checkPush_unfailing _ _) fun admitted _ => ?_
    split
    · exact ensures_bind (push_ensures stack frame) fun pushed _ => ih pushed
    · exact ih stack

/-- The ways that wait after a move waited before, or are among those of the move. -/
theorem move_keeps (hr : r.Within P) (groups : Nat) {move : Move} (hmove : move.Within P) :
    Ensures (r.move search groups move) (·.Within P) := by
  cases move with
  | finish position slots => exact ensures_pure (hr.finish position slots)
  | ask body path =>
    refine enterBody_ensures groups fun stack hstack => ?_
    exact within_body hstack ⟨hr.frames, hmove.2, hmove.1⟩ hr.outer
  | go ways cut =>
    unfold Run.move
    dsimp only
    have hbefore : ∀ frame ∈ (if cut then r.stack.reset else r.stack).frames, frame.Within P := by
      intro frame hframe
      split at hframe
      · cases hframe
      · exact hr.frames frame hframe
    cases ways with
    | nil => exact ensures_pure ⟨hbefore, by simp [Run.pick], hr.outer⟩
    | cons first others =>
      have hpush := (pushAll_unfailing search others.reverse
        (if cut then r.stack.reset else r.stack)).and_grants (pushAll_grants _ _)
      refine ensures_bind hpush fun stack hstack => ensures_pure ?_
      refine Within.follow ⟨fun frame hframe => ?_, hr.entering, hr.outer⟩
        (hmove first List.mem_cons_self)
      rcases hstack.2 frame hframe with hold | hnew
      · exact hbefore frame hold
      · exact hmove frame (List.mem_cons_of_mem _ (List.mem_reverse.mp hnew))

theorem enter_keeps (hclosed : code.ClosedOn P) (hr : r.Within P) {path : Path}
    (hphase : r.phase = .enter path) : Ensures (r.enter code search path) (·.Within P) := by
  unfold enter
  split
  · exact ensures_pure hr.pick
  · refine ensures_bind (search.checkpoint_unfailing _ _) fun admitted _ => ?_
    split
    · obtain ⟨move, henter, hmove⟩ :=
        hclosed.enter search.input r.goal.isBody path (hr.entering path hphase)
      simp only [Path.entered] at henter
      simp only [henter]
      exact move_keeps hr code.groups hmove
    · exact ensures_pure hr.pick

theorem leave_keeps (hclosed : code.ClosedOn P) (hr : r.Within P) {s : Suspended}
    {outer : List Suspended} (houter : r.outer = s :: outer) (found : Option Found) :
    Ensures (r.leave code search s outer found) (·.Within P) := by
  have hall := hr.outer
  rw [houter] at hall
  obtain ⟨hs, hrest⟩ := List.forall_mem_cons.mp hall
  unfold leave
  dsimp only
  split
  · refine enterBody_ensures code.groups fun stack hstack => ?_
    exact within_body hstack ⟨hs.frames, hs.path, hs.body⟩ hrest
  · obtain ⟨move, hresume, hmove⟩ :=
      hclosed.resume search.input s.goal.isBody s.path found hs.path
    simp only [hresume]
    exact move_keeps ⟨hs.frames, by simp, hrest⟩ code.groups hmove

/-- A step is stopped at a bound, or leaves the run on its paths. -/
theorem step_keeps (hclosed : code.ClosedOn P) (hr : r.Within P) :
    Ensures (r.step code search) (·.Within P) := by
  unfold step
  split
  · rename_i path hphase
    exact ensures_map (enter_keeps hclosed hr hphase)
  · cases hframes : r.stack.frames with
    | nil =>
      simp only [Stack.pop?, hframes]
      exact ensures_pure ⟨hr.frames, by simp, hr.outer⟩
    | cons frame rest =>
      simp only [Stack.pop?, hframes]
      have hall := hr.frames
      rw [hframes] at hall
      obtain ⟨hframe, hrest⟩ := List.forall_mem_cons.mp hall
      have hwithin : Run.Within P { r with stack := { r.stack with frames := rest } } :=
        ⟨hrest, hr.entering, hr.outer⟩
      refine ensures_bind (search.checkpoint_unfailing _ _) fun admitted _ => ?_
      split
      · exact ensures_pure (hwithin.follow hframe)
      · exact ensures_pure hwithin.pick
  · rename_i found hphase
    split
    · exact ensures_pure trivial
    · rename_i s outer houter
      exact ensures_map (leave_keeps hclosed hr houter found)

theorem iterate_unfailing (hclosed : code.ClosedOn P) (fuel : Nat) (hr : r.Within P) :
    Ensures (iterate code search fuel r) fun _ => True := by
  induction fuel generalizing r with
  | zero => exact ensures_throw_limit _
  | succ fuel ih =>
    unfold iterate
    refine ensures_bind (step_keeps hclosed hr) fun progress hprogress => ?_
    cases progress with
    | finished attempt => exact ensures_pure trivial
    | running next => exact ih hprogress

end Run

namespace Code

variable {code : Code} {search : Search} {P : Path → Prop} {initial start : Nat}

/-- A search starts with its first path on the stack, if that may wait there. -/
theorem within_start {maxDepth : Nat} {stack : Stack}
    (hinitial : P (.start initial start (.unset code.groups)))
    (hpush : (Stack.new maxDepth code.groups).push
      (.follow (.start initial start (.unset code.groups))) = .ok stack) :
    (Run.start stack).Within P := by
  refine ⟨fun frame hframe => ?_, by simp [Run.start], by simp [Run.start]⟩
  rcases Run.push_cases (Stack.new maxDepth code.groups)
      (.follow (.start initial start (.unset code.groups))) with
    ⟨pushed, hok, hframes⟩ | ⟨fault, herror⟩
  · cases hok.symm.trans hpush
    obtain rfl : frame = .follow (.start initial start (.unset code.groups)) := by
      simpa [Run.start, hframes, Stack.new, Stack.nested] using hframe
    exact hinitial
  · cases herror.symm.trans hpush

/-- A code that always has a move to make is searched for without failing, but for bounds. -/
theorem ClosedOn.search_unfailing (hclosed : code.ClosedOn P)
    (hinitial : P (.start initial start (.unset code.groups))) :
    Ensures (code.search search initial start) fun _ => True := by
  unfold Code.search
  apply ensures_get_bind
  intro t
  dsimp only
  rcases Run.push_cases (Stack.new t.limits.maxDepth code.groups)
      (.follow (.start initial start (.unset code.groups))) with
    ⟨stack, hpush, _⟩ | ⟨fault, hpush⟩
  · simp only [hpush]
    exact Run.iterate_unfailing hclosed _ (within_start hinitial hpush)
  · simp only [hpush]
    exact ensures_throw_limit fault

end Code

end RegexEngine
