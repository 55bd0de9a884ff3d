import Mathlib.Algebra.GroupWithZero.Nat
import RegexEngine.Proofs.Search.Reaching
import RegexEngine.Proofs.Search.Wider

/-!
What a search leaves in its tracker. `Upholds` says of a computation that it keeps an invariant of
the tracker, and what holds where it fails. A law of trackers says of an invariant that checkpoints
keep it, and what holds after each of the ways in which a search is stopped. Then every search
upholds the law: the runs of codes, the walks of automata, and the operations on contexts.

The law may rely on the depth. Searches inside each other have stacks that stand on each other: each
counts what waits on those below it, which stay as they are while it works. So no more ways wait in
all of them than one stack may hold.
-/

namespace RegexEngine

namespace Tracked

variable {α β : Type} {inv : Tracker → Prop} {fail : Error → Tracker → Prop} {post : α → Prop}

/-- Where an invariant of the tracker holds, it still holds after an answer, which is as `post`
says. Of a failure and the tracker that it leaves, `fail` holds. -/
def Upholds (inv : Tracker → Prop) (fail : Error → Tracker → Prop) (x : Tracked α)
    (post : α → Prop) : Prop :=
  ∀ t : Tracker, inv t →
    match x.run t with
    | (.ok value, t') => inv t' ∧ post value
    | (.error e, t') => fail e t'

theorem upholds_pure {value : α} (h : post value) : Upholds inv fail (pure value) post :=
  fun _ ht => ⟨ht, h⟩

theorem upholds_throw {e : Error} (h : ∀ t, inv t → fail e t) :
    Upholds inv fail (throw e) post :=
  h

theorem upholds_bind {x : Tracked α} {f : α → Tracked β} {mid : α → Prop} {post : β → Prop}
    (hx : Upholds inv fail x mid) (hf : ∀ value, mid value → Upholds inv fail (f value) post) :
    Upholds inv fail (x >>= f) post := by
  intro t ht
  have hfirst := hx t ht
  rw [run_bind]
  rcases hrun : x.run t with ⟨e | value, t'⟩
  · rwa [hrun] at hfirst
  · rw [hrun] at hfirst
    exact hf value hfirst.2 t' hfirst.1

theorem upholds_map {x : Tracked α} {f : α → β} {post : β → Prop}
    (hx : Upholds inv fail x fun value => post (f value)) : Upholds inv fail (f <$> x) post := by
  rw [map_eq_pure_bind]
  exact upholds_bind hx fun _ h => upholds_pure h

/-- The tracker that is read is one of which the invariant holds. -/
theorem upholds_get_bind {f : Tracker → Tracked β} {post : β → Prop}
    (hf : ∀ t, inv t → Upholds inv fail (f t) post) :
    Upholds inv fail (getThe Tracker >>= f) post :=
  fun t ht => hf t ht t ht

/-- What leaves the tracker as it is. -/
theorem upholds_except {x : Except Error α} (hok : ∀ value, x = .ok value → post value)
    (herror : ∀ e t, x = .error e → inv t → fail e t) :
    Upholds inv fail (Run.pushAll.liftExcept x) post := by
  intro t ht
  cases x with
  | ok value => exact ⟨ht, hok value rfl⟩
  | error e => exact herror e t rfl ht

theorem Upholds.of_run {x : Tracked α} (h : Upholds inv fail x post) {t t' : Tracker} {value : α}
    (ht : inv t) (hrun : x.run t = (.ok value, t')) : inv t' ∧ post value := by
  have hall := h t ht
  rwa [hrun] at hall

/-- What only fails at a bound. -/
theorem upholds_of_ensures {x : Tracked α} (h : Ensures x post) :
    Upholds (fun _ => True) (fun e _ => e.IsLimit) x post := by
  intro t _
  have hall := h t
  generalize x.run t = run at hall ⊢
  obtain ⟨e | value, t'⟩ := run
  · rcases hall with hstop | ⟨_, hok, _⟩
    · exact hstop
    · cases hok
  · rcases hall with hstop | ⟨_, hok, hpost⟩
    · exact hstop.elim
    · cases hok
      exact ⟨trivial, hpost⟩

end Tracked

open Tracked

/-! Stacks that stand on each other. -/

/-- A stack that stands on so many waiting ways, and is not too high. -/
structure Stack.StandsOn (maxDepth below : Nat) (stack : Stack) : Prop where
  base_eq : stack.base = below
  maxDepth_eq : stack.maxDepth = maxDepth
  depth_le : stack.depth ≤ maxDepth

/-- The stack of a search stands on those of the searches around it, and these on each other. -/
def Stack.Piled (maxDepth : Nat) : Stack → List Suspended → Prop
  | stack, [] => stack.StandsOn maxDepth 0
  | stack, s :: outer => stack.StandsOn maxDepth s.stack.depth ∧ s.stack.Piled maxDepth outer

namespace Stack

variable {maxDepth below : Nat} {stack next : Stack} {outer : List Suspended}

theorem Piled.depth_le (h : stack.Piled maxDepth outer) : stack.depth ≤ maxDepth := by
  cases outer with
  | nil => exact h.depth_le
  | cons s outer => exact h.1.depth_le

theorem Piled.maxDepth_eq (h : stack.Piled maxDepth outer) : stack.maxDepth = maxDepth := by
  cases outer with
  | nil => exact h.maxDepth_eq
  | cons s outer => exact h.1.maxDepth_eq

/-- The stack of a search may change, as long as it stands where it stood. -/
theorem Piled.replace (h : stack.Piled maxDepth outer) (hbase : next.base = stack.base)
    (hmaxDepth : next.maxDepth = stack.maxDepth) (hdepth : next.depth ≤ maxDepth) :
    next.Piled maxDepth outer := by
  cases outer with
  | nil => exact ⟨hbase.trans h.base_eq, hmaxDepth.trans h.maxDepth_eq, hdepth⟩
  | cons s outer =>
    exact ⟨⟨hbase.trans h.1.base_eq, hmaxDepth.trans h.1.maxDepth_eq, hdepth⟩, h.2⟩

/-- A stack only takes a way where there is room for it. -/
theorem push_eq_ok {frame : Frame} (h : stack.push frame = .ok next) :
    next = { stack with frames := frame :: stack.frames } ∧ next.depth ≤ next.maxDepth := by
  unfold push at h
  split at h
  · cases h
  · rename_i hroom
    cases h
    refine ⟨rfl, ?_⟩
    simp only [depth, List.length_cons] at hroom ⊢
    omega

theorem push_eq_error {frame : Frame} {e : Error} (h : stack.push frame = .error e) :
    stack.maxDepth ≤ stack.depth ∧ e = (LimitFault.pendingDepth stack.maxDepth).error := by
  unfold push at h
  split at h
  · rename_i hfull
    cases h
    exact ⟨hfull, rfl⟩
  · cases h

theorem Piled.push {frame : Frame} (h : stack.Piled maxDepth outer)
    (hpush : stack.push frame = .ok next) : next.Piled maxDepth outer := by
  obtain ⟨rfl, hdepth⟩ := push_eq_ok hpush
  exact h.replace rfl rfl (Nat.le_trans hdepth (Nat.le_of_eq h.maxDepth_eq))

theorem Piled.pop {frame : Frame} {rest : List Frame} (h : stack.Piled maxDepth outer)
    (hframes : stack.frames = frame :: rest) :
    Piled maxDepth { stack with frames := rest } outer := by
  have hdepth := h.depth_le
  refine h.replace rfl rfl ?_
  simp only [depth, hframes, List.length_cons] at hdepth ⊢
  omega

theorem Piled.reset (h : stack.Piled maxDepth outer) : stack.reset.Piled maxDepth outer := by
  have hdepth := h.depth_le
  refine h.replace rfl rfl ?_
  simp only [depth, Stack.reset, List.length_nil] at hdepth ⊢
  omega

theorem Piled.cut (h : stack.Piled maxDepth outer) (cut : Bool) :
    (if cut then stack.reset else stack).Piled maxDepth outer := by
  split
  · exact h.reset
  · exact h

/-- A search for a body starts on top of the search around it. -/
theorem Piled.nested {s : Suspended} {groups : Nat} {frame : Frame}
    (h : s.stack.Piled maxDepth outer)
    (hpush : (Stack.nested maxDepth groups s.stack.depth).push frame = .ok next) :
    next.Piled maxDepth (s :: outer) := by
  obtain ⟨rfl, hdepth⟩ := push_eq_ok hpush
  exact ⟨⟨rfl, rfl, hdepth⟩, h⟩

theorem piled_new {groups : Nat} {frame : Frame}
    (hpush : (Stack.new maxDepth groups).push frame = .ok next) : next.Piled maxDepth [] := by
  obtain ⟨rfl, hdepth⟩ := push_eq_ok hpush
  exact ⟨rfl, rfl, hdepth⟩

end Stack

namespace Run

/-- The number of ways that wait in a run: in the search that it is in, and in those around it. -/
def waiting (r : Run) : Nat :=
  r.stack.frames.length + (r.outer.map fun s => s.stack.frames.length).sum

/-- The stacks of a run stand on each other. -/
def Piled (maxDepth : Nat) (r : Run) : Prop := r.stack.Piled maxDepth r.outer

/-- A stack counts what waits on all stacks that it stands on. -/
theorem depth_eq_of_piled {maxDepth : Nat} {outer : List Suspended} : ∀ {stack : Stack},
    stack.Piled maxDepth outer →
      stack.depth = stack.frames.length + (outer.map fun s => s.stack.frames.length).sum := by
  induction outer with
  | nil =>
    intro stack h
    simp [Stack.depth, h.base_eq]
  | cons s outer ih =>
    intro stack h
    -- The base of the stack is the depth of the one below, which counts the others.
    have hbelow := ih h.2
    simp only [Stack.depth, h.1.base_eq, List.map_cons, List.sum_cons] at hbelow ⊢
    omega

theorem Piled.waiting_le {maxDepth : Nat} {r : Run} (h : r.Piled maxDepth) :
    r.waiting ≤ maxDepth := by
  unfold waiting
  rw [← depth_eq_of_piled h]
  exact h.depth_le

end Run

/-! Laws of trackers. -/

/-- A law for searches whose stacks are never higher than so much: an invariant of the tracker while
they go on, and what holds of a failure and the tracker that it leaves. -/
structure Tracker.Law (maxDepth : Nat) (inv : Tracker → Prop) (fail : Error → Tracker → Prop) :
    Prop where
  maxDepth_eq : ∀ t, inv t → t.limits.maxDepth = maxDepth
  count : ∀ t depth, depth ≤ maxDepth → inv t → inv (t.count depth)
  peak : ∀ t depth, depth ≤ maxDepth → inv t → inv { t with peakDepth := max t.peakDepth depth }
  /-- The search is stopped and marked. -/
  stop : ∀ e t, e.IsLimit → inv t → fail e t.stop
  timeOut : ∀ t, inv t → fail LimitFault.deadline.error { t with timedOut := true }
  /-- There is no room for the first way of a search. -/
  full : ∀ t, inv t → fail (LimitFault.pendingDepth maxDepth).error t
  /-- No more steps can be made. -/
  outOfSteps : ∀ t, inv t → fail (LimitFault.transitions Run.maxSteps).error t
  /-- The failure has nothing to do with bounds. -/
  apart : ∀ e t, ¬e.IsLimit → inv t → fail e t

/-- A code never fails as if a bound had been reached. -/
structure Code.FailsApart (code : Code) : Prop where
  enter : ∀ {input inBody path e}, code.enter input inBody path = .error e → ¬e.IsLimit
  resume : ∀ {input inBody path found e}, code.resume input inBody path found = .error e →
    ¬e.IsLimit

section

variable {maxDepth depth : Nat} {inv : Tracker → Prop} {fail : Error → Tracker → Prop}

/-- A checkpoint counts, or stops the search at a bound. -/
theorem Search.checkpoint_upholds (search : Search) (position : Nat)
    (hcount : ∀ t, inv t → inv (t.count depth)) (hstop : ∀ e t, e.IsLimit → inv t → fail e t.stop)
    (htimeOut : ∀ t, inv t → fail LimitFault.deadline.error { t with timedOut := true }) :
    Upholds inv fail (search.checkpoint depth position) fun _ => True := by
  have hpassed : Upholds inv fail (Tracker.checkpoint search.clock depth) fun _ => True := by
    intro t ht
    have hcounted := hcount t ht
    rw [Tracker.run_checkpoint]
    split_ifs
    · exact hstop _ _ (LimitFault.error_isLimit _) hcounted
    · exact htimeOut _ hcounted
    · exact ⟨hcounted, trivial⟩
  unfold Search.checkpoint
  refine upholds_bind hpassed fun _ _ => ?_
  split
  · exact upholds_pure trivial
  · refine upholds_get_bind fun t ht => ?_
    split
    · exact upholds_pure trivial
    · exact upholds_pure trivial
    · exact fun _ _ => hstop _ _ (LimitFault.error_isLimit _) ht

variable (law : Tracker.Law maxDepth inv fail) (search : Search)

include law

theorem Tracker.Law.checkpoint (hdepth : depth ≤ maxDepth) (position : Nat) :
    Upholds inv fail (search.checkpoint depth position) fun _ => True :=
  search.checkpoint_upholds position (fun t => law.count t depth hdepth) law.stop law.timeOut

theorem Tracker.Law.checkPush (depth position : Nat) :
    Upholds inv fail (search.checkPush depth position) fun _ => True := by
  have hroom : Upholds inv fail (Tracker.checkPush depth) fun _ => depth + 1 ≤ maxDepth := by
    intro t ht
    have hmaxDepth := law.maxDepth_eq t ht
    rw [Tracker.run_checkPush]
    split_ifs with hfull
    · exact law.stop _ _ (LimitFault.error_isLimit _) ht
    · have hle : depth + 1 ≤ maxDepth := by omega
      exact ⟨law.peak t _ hle ht, hle⟩
  exact upholds_bind hroom fun _ hle => law.checkpoint search hle position

end

/-! Runs. -/

namespace Run

variable {code : Code} {search : Search} {maxDepth : Nat} {inv : Tracker → Prop}
  {fail : Error → Tracker → Prop} {r : Run}

theorem finish_stack (r : Run) (search : Search) (position : Nat) (slots : Slots) :
    (r.finish search position slots).stack = r.stack ∧
      (r.finish search position slots).outer = r.outer := by
  unfold finish
  split <;> exact ⟨rfl, rfl⟩

theorem Piled.finish (h : r.Piled maxDepth) (position : Nat) (slots : Slots) :
    (r.finish search position slots).Piled maxDepth := by
  obtain ⟨hstack, houter⟩ := r.finish_stack search position slots
  unfold Run.Piled
  rwa [hstack, houter]

theorem Piled.follow (h : r.Piled maxDepth) (frame : Frame) :
    (r.follow search frame).Piled maxDepth := by
  cases frame with
  | follow path => exact h
  | accept position slots => exact h.finish position slots

theorem pushAll_upholds (law : Tracker.Law maxDepth inv fail) {outer : List Suspended}
    (ways : List Frame) {stack : Stack} (h : stack.Piled maxDepth outer) :
    Upholds inv fail (pushAll search stack ways) (·.Piled maxDepth outer) := by
  induction ways generalizing stack with
  | nil => exact upholds_pure h
  | cons frame rest ih =>
    unfold pushAll
    refine upholds_bind (law.checkPush search _ _) fun admitted _ => ?_
    split
    · have hpush : Upholds inv fail (pushAll.liftExcept (stack.push frame))
          (·.Piled maxDepth outer) := by
        refine upholds_except (fun pushed hok => h.push hok) fun e t herror ht => ?_
        rw [(Stack.push_eq_error herror).2, h.maxDepth_eq]
        exact law.full t ht
      exact upholds_bind hpush fun pushed hpushed => ih hpushed
    · exact ih h

theorem enterBody_upholds (law : Tracker.Law maxDepth inv fail) (groups : Nat)
    {s : Suspended} (h : s.stack.Piled maxDepth r.outer) :
    Upholds inv fail (r.enterBody groups s) (·.Piled maxDepth) := by
  unfold enterBody
  refine upholds_get_bind fun t ht => ?_
  rw [law.maxDepth_eq t ht]
  dsimp only
  split
  · rename_i e hpush
    refine upholds_throw fun t ht => ?_
    rw [(Stack.push_eq_error hpush).2]
    exact law.full t ht
  · rename_i stack hpush
    exact upholds_pure (h.nested hpush)

theorem move_upholds (law : Tracker.Law maxDepth inv fail) (h : r.Piled maxDepth)
    (groups : Nat) (move : Move) :
    Upholds inv fail (r.move search groups move) (·.Piled maxDepth) := by
  cases move with
  | finish position slots => exact upholds_pure (h.finish position slots)
  | ask body path => exact enterBody_upholds law groups h
  | go ways cut =>
    unfold Run.move
    dsimp only
    cases ways with
    | nil => exact upholds_pure (h.cut cut)
    | cons first others =>
      refine upholds_bind (pushAll_upholds law others.reverse (h.cut cut)) fun stack hstack => ?_
      have hnext : Run.Piled maxDepth { r with
          stack := stack, committed := r.committed || (cut && !r.goal.isBody) } := hstack
      exact upholds_pure (hnext.follow first)

theorem enter_upholds (law : Tracker.Law maxDepth inv fail) (hcode : code.FailsApart)
    (h : r.Piled maxDepth) (path : Path) :
    Upholds inv fail (r.enter code search path) (·.Piled maxDepth) := by
  unfold enter
  split
  · exact upholds_pure h
  · refine upholds_bind (law.checkpoint search h.depth_le _) fun admitted _ => ?_
    split
    · dsimp only
      split
      · exact move_upholds law h code.groups _
      · rename_i e henter
        exact upholds_throw fun t => law.apart e t (hcode.enter henter)
    · exact upholds_pure h

theorem leave_upholds (law : Tracker.Law maxDepth inv fail) (hcode : code.FailsApart)
    {s : Suspended} {outer : List Suspended} (h : s.stack.Piled maxDepth outer)
    (found : Option Found) :
    Upholds inv fail (r.leave code search s outer found) (·.Piled maxDepth) := by
  unfold leave
  dsimp only
  split
  · exact enterBody_upholds law code.groups h
  · split
    · have haround : Run.Piled maxDepth { r with
          phase := .pick, goal := s.goal, stack := s.stack, outer := outer } := h
      exact move_upholds law haround code.groups _
    · rename_i e hresume
      exact upholds_throw fun t => law.apart e t (hcode.resume hresume)

end Run

/-- A run that goes on has stacks that stand on each other. -/
def Progress.Piled (maxDepth : Nat) : Progress → Prop
  | running next => next.Piled maxDepth
  | finished _ => True

namespace Run

variable {code : Code} {search : Search} {maxDepth : Nat} {inv : Tracker → Prop}
  {fail : Error → Tracker → Prop} {r : Run}

/-- A step leaves the stacks on each other. -/
theorem step_upholds (law : Tracker.Law maxDepth inv fail) (hcode : code.FailsApart)
    (h : r.Piled maxDepth) : Upholds inv fail (r.step code search) (·.Piled maxDepth) := by
  unfold step
  split
  · exact upholds_map (enter_upholds law hcode h _)
  · cases hframes : r.stack.frames with
    | nil =>
      simp only [Stack.pop?, hframes]
      exact upholds_pure h
    | cons frame rest =>
      simp only [Stack.pop?, hframes]
      have hpopped : Run.Piled maxDepth { r with stack := { r.stack with frames := rest } } :=
        Stack.Piled.pop h hframes
      refine upholds_bind (law.checkpoint search hpopped.depth_le _) fun admitted _ => ?_
      split
      · exact upholds_pure (hpopped.follow frame)
      · exact upholds_pure hpopped
  · split
    · exact upholds_pure trivial
    · rename_i s outer houter
      have hpiled : r.stack.Piled maxDepth (s :: outer) := houter ▸ h
      -- The search is over, so its stack is given up, and the one below is taken up again.
      exact upholds_map (leave_upholds law hcode hpiled.2 _)

/-- Any number of steps does. -/
theorem steps_upholds (law : Tracker.Law maxDepth inv fail) (hcode : code.FailsApart) (n : Nat)
    (h : r.Piled maxDepth) : Upholds inv fail (steps code search n r) (·.Piled maxDepth) := by
  induction n generalizing r with
  | zero => exact upholds_pure h
  | succ n ih =>
    unfold steps
    refine upholds_bind (step_upholds law hcode h) fun progress hprogress => ?_
    cases progress with
    | finished attempt => exact upholds_pure trivial
    | running next => exact ih hprogress

theorem iterate_upholds (law : Tracker.Law maxDepth inv fail) (hcode : code.FailsApart) (fuel : Nat)
    (h : r.Piled maxDepth) :
    Upholds inv fail (iterate code search fuel r) fun _ => True := by
  induction fuel generalizing r with
  | zero => exact upholds_throw law.outOfSteps
  | succ fuel ih =>
    unfold iterate
    refine upholds_bind (step_upholds law hcode h) fun progress hprogress => ?_
    cases progress with
    | finished attempt => exact upholds_pure trivial
    | running next => exact ih hprogress

end Run

theorem Code.FailsApart.search_upholds {code : Code} {search : Search} {maxDepth : Nat}
    {inv : Tracker → Prop} {fail : Error → Tracker → Prop} (hcode : code.FailsApart)
    (law : Tracker.Law maxDepth inv fail) (initial start : Nat) :
    Upholds inv fail (code.search search initial start) fun _ => True := by
  unfold Code.search
  refine upholds_get_bind fun t ht => ?_
  rw [law.maxDepth_eq t ht]
  dsimp only
  split
  · rename_i e hpush
    refine upholds_throw fun t ht => ?_
    rw [(Stack.push_eq_error hpush).2]
    exact law.full t ht
  · rename_i stack hpush
    exact Run.iterate_upholds law hcode _ (Stack.piled_new hpush)

/-! What codes fail with. -/

/-- A computation fails with errors that are no bounds only. -/
def FailsApart {α : Type} (x : Except Error α) : Prop := ∀ e, x = .error e → ¬e.IsLimit

section

variable {α β : Type}

theorem failsApart_ok (value : α) : FailsApart (.ok value) := by
  rintro e ⟨⟩

theorem failsApart_bind {x : Except Error α} {f : α → Except Error β} (hx : FailsApart x)
    (hf : ∀ value, FailsApart (f value)) : FailsApart (x >>= f) := by
  intro e h
  cases x with
  | ok value => exact hf value e h
  | error e' =>
    cases h
    exact hx _ rfl

theorem AutomatonFault.failsApart (fault : AutomatonFault) :
    FailsApart (.error fault.error : Except Error α) := by
  rintro e ⟨⟩
  cases fault <;> simp [Error.IsLimit, AutomatonFault.error, Error.of, Error.kind, Cause.kind,
    AutomatonFault.kind]

theorem ProgramFault.failsApart (fault : ProgramFault) :
    FailsApart (.error fault.error : Except Error α) := by
  rintro e ⟨⟩
  cases fault <;> simp [Error.IsLimit, ProgramFault.error, Error.of, Error.kind, Cause.kind,
    ProgramFault.kind]

end

theorem Automaton.failsApart_state (a : Automaton) (place : Nat) : FailsApart (a.state place) := by
  unfold state
  split
  · exact failsApart_ok _
  · exact AutomatonFault.failsApart _

theorem Automaton.failsApart_code (a : Automaton) : a.code.FailsApart where
  enter h := failsApart_bind (a.failsApart_state _) (fun _ => failsApart_ok _) _ h
  resume h := failsApart_bind (a.failsApart_state _) (fun _ => failsApart_ok _) _ h

namespace Program

variable (p : Program)

theorem failsApart_instr (address : Nat) : FailsApart (p.instr address) := by
  unfold instr
  split
  · exact failsApart_ok _
  · exact ProgramFault.failsApart _

theorem failsApart_comeRound (path : Path) (start : Nat) : FailsApart (p.comeRound path start) := by
  unfold comeRound
  refine failsApart_bind (p.failsApart_instr start) fun i => ?_
  split
  · dsimp only
    split
    · exact failsApart_ok _
    · split
      · exact failsApart_ok _
      · split <;> exact failsApart_ok _
  · exact ProgramFault.failsApart _
  · exact ProgramFault.failsApart _

theorem failsApart_endRound (path : Path) (start : Nat) : FailsApart (p.endRound path start) := by
  unfold endRound
  split
  · split
    · exact failsApart_bind (p.failsApart_instr start) fun i => p.failsApart_comeRound _ _
    · exact ProgramFault.failsApart _
  · exact ProgramFault.failsApart _

theorem failsApart_execute (input : Array Char) (path : Path) (i : Instr) :
    FailsApart (p.execute input path i) := by
  cases i with
  | repeatStart min max greedy stop => exact p.failsApart_comeRound _ _
  | repeatEnd start => exact p.failsApart_endRound _ _
  | cls offset length =>
    unfold execute
    dsimp only
    split
    · exact ProgramFault.failsApart _
    · split <;> exact failsApart_ok _
  | backref group nocase =>
    unfold execute
    dsimp only
    split <;> exact failsApart_ok _
  | _ => exact failsApart_ok _

theorem failsApart_code : p.code.FailsApart where
  enter h := failsApart_bind (p.failsApart_instr _) (fun i => p.failsApart_execute _ _ i) _ h
  resume h := failsApart_bind (p.failsApart_instr _) (fun _ => failsApart_ok _) _ h

end Program

/-! Searches in which no way waits on a stack. -/

namespace Automaton

variable {a : Automaton} {search : Search} {inv : Tracker → Prop} {fail : Error → Tracker → Prop}

theorem walk_upholds
    (hcheckpoint : ∀ position, Upholds inv fail (search.checkpoint 0 position) fun _ => True)
    (fuel : Nat) : ∀ (state position : Nat) (last : Option Nat),
      Upholds inv fail (a.walk search fuel state position last) fun _ => True := by
  induction fuel with
  | zero => exact fun _ _ _ => upholds_pure trivial
  | succ fuel ih =>
    intro state position last
    unfold walk
    refine upholds_bind (hcheckpoint _) fun admitted _ => ?_
    split
    · split
      · exact ih _ _ _
      · exact upholds_pure trivial
    · exact upholds_pure trivial

theorem longest_upholds
    (hcheckpoint : ∀ position, Upholds inv fail (search.checkpoint 0 position) fun _ => True)
    (initial start : Nat) :
    Upholds inv fail (a.longest search initial start) fun _ => True :=
  upholds_bind (walk_upholds hcheckpoint _ _ _ _) fun _ _ => upholds_pure trivial

variable (hcheckpoint : ∀ depth position,
  Upholds inv fail (search.checkpoint depth position) fun _ => True)

include hcheckpoint

theorem visit_upholds (position waiting state : Nat) (slots : Slots) :
    Upholds inv fail (a.visit search position waiting state slots) fun _ => True := by
  unfold visit
  refine upholds_bind (hcheckpoint _ _) fun admitted _ => ?_
  split
  · split
    · split <;> exact upholds_pure trivial
    · exact upholds_pure trivial
  · exact upholds_pure trivial

theorem spread_upholds (position : Nat) (seen : Array Bool) (threads : List Thread)
    (errands : List Errand) :
    Upholds inv fail (a.spread search position seen threads errands) fun _ => True := by
  fun_induction spread a search position seen threads errands with
  | case1 => exact upholds_pure trivial
  | case2 _ _ _ _ ih => exact ih
  | case3 _ _ _ _ _ _ _ ih => exact ih
  | case4 _ _ _ _ _ _ _ ih =>
    exact upholds_bind (visit_upholds hcheckpoint _ _ _ _) fun more _ => ih more
  | case5 _ _ _ _ _ _ ih => exact ih

theorem join_upholds (position : Nat) (front : Front) (state : Nat) (slots : Slots) :
    Upholds inv fail (a.join search position front state slots) fun _ => True :=
  upholds_bind (spread_upholds hcheckpoint _ _ _ _) fun _ _ => upholds_pure trivial

theorem advanceAll_upholds (position : Nat) (threads : List Thread) :
    ∀ (front : Front) (found : Option Found),
      Upholds inv fail (a.advanceAll search position front found threads) fun _ => True := by
  induction threads with
  | nil => exact fun _ _ => upholds_pure trivial
  | cons thread rest ih =>
    intro front found
    cases thread with
    | accept slots =>
      unfold advanceAll
      split
      · exact upholds_pure trivial
      · exact ih _ _
    | wait t slots =>
      unfold advanceAll
      split
      · exact upholds_bind (join_upholds hcheckpoint _ _ _ _) fun joined _ => ih joined _
      · exact ih _ _

theorem race_upholds (fuel : Nat) : ∀ (position : Nat) (threads : List Thread)
    (found : Option Found),
      Upholds inv fail (a.race search fuel position threads found) fun _ => True := by
  induction fuel with
  | zero => exact fun _ _ _ => upholds_pure trivial
  | succ fuel ih =>
    intro position threads found
    cases threads with
    | nil =>
      rw [race]
      exact upholds_pure trivial
    | cons thread rest =>
      rw [race]
      · exact upholds_bind (advanceAll_upholds hcheckpoint _ _ _ _) fun next _ => ih _ _ _
      · simp

theorem lockstep_upholds (initial start : Nat) :
    Upholds inv fail (a.lockstep search initial start) fun _ => True :=
  upholds_bind (join_upholds hcheckpoint _ _ _ _) fun _ _ =>
    upholds_map (race_upholds hcheckpoint _ _ _ _)

end Automaton

/-! Searches of contexts. -/

namespace Context

variable {x : Searcher} {mode : SearchMode} {inv : Tracker → Prop} {fail : Error → Tracker → Prop}

/-- What an operation on a context leaves. -/
def Leaves {α : Type} (inv : Tracker → Prop) (fail : Error → Tracker → Prop)
    (done : Except Error α × Context) : Prop :=
  match done.1 with
  | .ok _ => inv done.2.tracker
  | .error e => fail e done.2.tracker

theorem Leaves.of_both {α : Type} {done : Except Error α × Context}
    (h : Leaves inv (fun _ t => inv t) done) : inv done.2.tracker := by
  unfold Leaves at h
  split at h <;> exact h

theorem Leaves.of_error {α : Type} {done : Except Error α × Context} {e : Error}
    (h : Leaves inv fail done) (he : done.1 = .error e) : fail e done.2.tracker := by
  unfold Leaves at h
  rwa [he] at h

/-- The attempts of a searcher uphold an invariant, and an attempt may begin at any time. -/
structure Obeys (x : Searcher) (mode : SearchMode) (inv : Tracker → Prop)
    (fail : Error → Tracker → Prop) : Prop where
  attempt : ∀ (search : Search) (start : Nat), search.mode = mode →
    Upholds inv fail (x.attempt search start) fun _ => True
  beginAttempt : ∀ t, inv t → inv t.beginAttempt

theorem tryAll_upholds (hx : Obeys x mode inv fail) {search : Search} (hmode : search.mode = mode)
    (anchored : Bool) (places : List Nat) :
    Upholds inv fail (tryAll x search anchored places) fun _ => True := by
  induction places with
  | nil => exact upholds_pure trivial
  | cons start rest ih =>
    unfold tryAll
    have hmodify : Upholds inv fail (modifyThe Tracker (·.beginAttempt)) fun _ => True :=
      fun t ht => ⟨hx.beginAttempt t ht, trivial⟩
    refine upholds_bind hmodify fun _ _ => upholds_bind (hx.attempt _ _ hmode) fun A _ => ?_
    split
    · exact upholds_pure trivial
    · split
      · exact upholds_pure trivial
      · exact ih

theorem searchFrom_leaves (hx : Obeys x mode inv fail) {c : Context} (hmode : c.mode = mode)
    (hc : inv c.tracker) (start : Nat) (full anchored : Bool) :
    Leaves inv fail (c.searchFrom x start full anchored) ∧
      (c.searchFrom x start full anchored).2.mode = mode := by
  have hall := tryAll_upholds hx (show (c.search x full).mode = mode from hmode)
    (anchored || x.flags.contains .anchored) (starts c.bounds.2 start) c.tracker hc
  unfold searchFrom
  dsimp only
  generalize (tryAll x _ _ _).run c.tracker = run at hall ⊢
  obtain ⟨e | found, tracker⟩ := run
  · exact ⟨hall, hmode⟩
  · cases found <;> exact ⟨hall.1, hmode⟩

theorem collect_leaves (hx : Obeys x mode inv fail) (most fuel : Nat) :
    ∀ {c : Context} (start : Nat) (found : List Match), c.mode = mode → inv c.tracker →
      Leaves inv fail (collect x most fuel c start found) := by
  induction fuel with
  | zero => exact fun _ _ _ hc => hc
  | succ fuel ih =>
    intro c start found hmode hc
    obtain ⟨hleaves, hmode'⟩ := searchFrom_leaves hx hmode hc start false false
    unfold collect
    dsimp only
    split
    · exact hc
    · split
      · rename_i hrun
        rwa [hrun] at hleaves
      · rename_i hrun
        rwa [hrun] at hleaves
      · rename_i hrun
        rw [hrun] at hleaves hmode'
        split
        · exact hleaves
        · exact ih _ _ hmode' hleaves

theorem perform_leaves {α : Type} {c d : Context} (hbegin : c.begin x = .ok d)
    {action : Context → Except Error α × Context} (haction : Leaves inv fail (action d)) :
    Leaves inv fail (c.perform x action) := by
  unfold perform
  rw [hbegin]
  dsimp only
  rcases hrun : action d with ⟨e | value, d'⟩
  · rw [hrun] at haction
    exact haction
  · rw [hrun] at haction
    exact haction

/-- What holds when a search was started holds as its law says after the operation that started it.
-/
theorem searches_leave (hx : Obeys x mode inv fail) {c d : Context} (hmode : c.mode = mode)
    (hbegin : c.begin x = .ok d) (hd : inv d.tracker) :
    Leaves inv fail (c.matchWhole x) ∧ (c.exhausted = false → Leaves inv fail (c.findNext x)) ∧
      ∀ most, Leaves inv fail (c.findAll x most) := by
  have hmode' : d.mode = mode := by
    rw [eq_of_begin hbegin]
    exact hmode
  refine ⟨perform_leaves hbegin (searchFrom_leaves hx hmode' hd _ _ _).1, fun hleft => ?_,
    fun most => perform_leaves hbegin (collect_leaves hx most _ _ _ hmode' hd)⟩
  have hsearch : Leaves inv fail
      (c.perform x fun ctx => ctx.searchFrom x ctx.nextStart false false) :=
    perform_leaves hbegin (searchFrom_leaves hx hmode' hd _ _ _).1
  unfold findNext
  rw [hleft, if_neg Bool.false_ne_true]
  split
  · rename_i m c' hrun
    rw [hrun] at hsearch
    unfold Leaves advancePast at *
    dsimp only at hsearch ⊢
    split
    · exact hsearch
    · split <;> exact hsearch
  · exact hsearch

end Context

end RegexEngine
