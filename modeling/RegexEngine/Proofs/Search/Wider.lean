import Mathlib.Data.List.Forall2
import RegexEngine.Proofs.CharClass.Strict
import RegexEngine.Proofs.Search.Agreement
import RegexEngine.Proofs.Search.Bounds

/-!
Bounds are only a guard. What a search answers with before it comes to its bounds, it answers with
under wider bounds too: they are looked at where a transition is counted and where a way is put on a
stack, and decide nothing but whether the search is stopped there. So two runs of the same search,
the second one under wider bounds, go through the same steps as long as the first one is not
stopped, with stacks that differ in how deep they may become.

Deadlines are left out: the time that a search may take is no matter of its steps.
-/

namespace RegexEngine

/-- The second bounds allow all that the first ones do. A bound of no transitions allows any number
of them. -/
structure SearchLimits.AllowedBy (narrow wide : SearchLimits) : Prop where
  maxDepth_le : narrow.maxDepth ≤ wide.maxDepth
  maxTransitions_le : wide.maxTransitions = 0 ∨
    narrow.maxTransitions ≠ 0 ∧ narrow.maxTransitions ≤ wide.maxTransitions

/-! Computations. -/

namespace Tracked

variable {α β γ δ : Type} {narrow wide : SearchLimits}

/-- What the first computation answers with under narrow bounds, the second one answers with under
wide ones, and both count the same. -/
def Widens (narrow wide : SearchLimits) (same : α → β → Prop) (x : Tracked α) (y : Tracked β) :
    Prop :=
  ∀ (t s : Tracker) (value : α), t.limits = narrow → t.deadline = none → x.run t = (.ok value, s) →
    s.limits = narrow ∧ s.deadline = none ∧
      ∃ value', y.run (t.setLimits wide) = (.ok value', s.setLimits wide) ∧ same value value'

theorem widens_pure {same : α → β → Prop} {value : α} {value' : β} (h : same value value') :
    Widens narrow wide same (pure value) (pure value') := by
  intro t s v hlimits hdeadline hrun
  cases hrun
  exact ⟨hlimits, hdeadline, value', rfl, h⟩

theorem widens_throw {same : α → β → Prop} (e : Error) (y : Tracked β) :
    Widens narrow wide same (throw e) y := by
  intro t s v _ _ hrun
  cases hrun

theorem widens_bind {same : α → β → Prop} {same' : γ → δ → Prop} {x : Tracked α} {y : Tracked β}
    {f : α → Tracked γ} {g : β → Tracked δ} (h : Widens narrow wide same x y)
    (hf : ∀ value value', same value value' → Widens narrow wide same' (f value) (g value')) :
    Widens narrow wide same' (x >>= f) (y >>= g) := by
  intro t s v hlimits hdeadline hrun
  rw [run_bind] at hrun
  rcases hx : x.run t with ⟨e | value, t'⟩
  · rw [hx] at hrun
    cases hrun
  · rw [hx] at hrun
    obtain ⟨hlimits', hdeadline', value', hy, hsame⟩ := h t t' value hlimits hdeadline hx
    rw [run_bind, hy]
    exact hf value value' hsame t' s v hlimits' hdeadline' hrun

/-- A computation that comes first and answers alike. -/
theorem widens_bind_same {same : γ → δ → Prop} {x : Tracked α} {f : α → Tracked γ}
    {g : α → Tracked δ} (h : Widens narrow wide Eq x x)
    (hf : ∀ value, Widens narrow wide same (f value) (g value)) :
    Widens narrow wide same (x >>= f) (x >>= g) :=
  widens_bind h fun value _ heq => heq ▸ hf value

theorem widens_mono {same same' : α → β → Prop} {x : Tracked α} {y : Tracked β}
    (h : Widens narrow wide same x y)
    (hsame : ∀ value value', same value value' → same' value value') :
    Widens narrow wide same' x y := by
  intro t s v hlimits hdeadline hrun
  obtain ⟨hlimits', hdeadline', value', hy, hvalue⟩ := h t s v hlimits hdeadline hrun
  exact ⟨hlimits', hdeadline', value', hy, hsame v value' hvalue⟩

theorem widens_map {same : γ → δ → Prop} {x : Tracked α} {y : Tracked β} {f : α → γ} {g : β → δ}
    (h : Widens narrow wide (fun value value' => same (f value) (g value')) x y) :
    Widens narrow wide same (f <$> x) (g <$> y) := by
  rw [map_eq_pure_bind, map_eq_pure_bind]
  exact widens_bind h fun _ _ hsame => widens_pure hsame

/-- The bounds are all that a computation can tell by looking at them. -/
theorem widens_get_bind {same : α → β → Prop} {f : Tracker → Tracked α} {g : Tracker → Tracked β}
    (h : ∀ t : Tracker, t.limits = narrow → Widens narrow wide same (f t) (g (t.setLimits wide))) :
    Widens narrow wide same (getThe Tracker >>= f) (getThe Tracker >>= g) :=
  fun t s v hlimits => h t hlimits t s v hlimits

theorem widens_beginAttempt :
    Widens narrow wide Eq (modifyThe Tracker (·.beginAttempt))
      (modifyThe Tracker (·.beginAttempt)) := by
  intro t s v hlimits hdeadline hrun
  cases hrun
  exact ⟨hlimits, hdeadline, PUnit.unit, rfl, rfl⟩

end Tracked

open Tracked

/-! Checkpoints. -/

/-- A way may wait as long as the greatest depth is not reached. -/
theorem Tracker.run_checkPush (depth : Nat) (t : Tracker) :
    (Tracker.checkPush depth).run t =
      if t.limits.maxDepth ≤ depth then
        (.error (LimitFault.pendingDepth t.limits.maxDepth).error, t.stop)
      else (.ok (), { t with peakDepth := max t.peakDepth (depth + 1) }) := by
  change (if _ then _ else _ : Tracked Unit).run t = _
  split <;> rfl

variable {narrow wide : SearchLimits} {search : Search}

/-- A transition that is counted under narrow bounds is counted under wide ones. -/
theorem Tracker.checkpoint_widens (hallowed : narrow.AllowedBy wide) (clock : Clock)
    (depth : Nat) :
    Widens narrow wide Eq (Tracker.checkpoint clock depth) (Tracker.checkpoint clock depth) := by
  rintro t s v rfl hdeadline hrun
  rw [Tracker.run_checkpoint] at hrun
  split at hrun
  · cases hrun
  · rename_i hwithin
    simp only [hdeadline, Option.any_none, Bool.false_eq_true, if_false] at hrun
    cases hrun
    refine ⟨rfl, hdeadline, (), ?_, rfl⟩
    have hwithin' : ¬(0 < wide.maxTransitions && wide.maxTransitions < t.transitions + 1) := by
      have := hallowed.maxTransitions_le
      simp only [Bool.and_eq_true, decide_eq_true_eq, not_and] at hwithin ⊢
      omega
    rw [Tracker.run_checkpoint]
    simp only [Tracker.setLimits, Tracker.count, hdeadline] at hwithin' ⊢
    rw [if_neg hwithin']
    rfl

theorem Tracker.checkPush_widens (hallowed : narrow.AllowedBy wide) (depth : Nat) :
    Widens narrow wide Eq (Tracker.checkPush depth) (Tracker.checkPush depth) := by
  rintro t s v rfl hdeadline hrun
  rw [Tracker.run_checkPush] at hrun
  split at hrun
  · cases hrun
  · cases hrun
    have hdepth : ¬wide.maxDepth ≤ depth := by
      have := hallowed.maxDepth_le
      omega
    refine ⟨rfl, hdeadline, (), ?_, rfl⟩
    rw [Tracker.run_checkPush]
    simp only [Tracker.setLimits, hdepth]
    rfl

namespace Search

theorem checkpoint_widens (hallowed : narrow.AllowedBy wide) (hbailout : search.bailout = none)
    (depth position : Nat) :
    Widens narrow wide Eq (search.checkpoint depth position)
      (search.checkpoint depth position) := by
  unfold checkpoint
  refine widens_bind_same (Tracker.checkpoint_widens hallowed _ _) fun _ => ?_
  rw [hbailout]
  exact widens_pure rfl

theorem checkPush_widens (hallowed : narrow.AllowedBy wide) (hbailout : search.bailout = none)
    (depth position : Nat) :
    Widens narrow wide Eq (search.checkPush depth position) (search.checkPush depth position) := by
  unfold checkPush
  exact widens_bind_same (Tracker.checkPush_widens hallowed _) fun _ =>
    checkpoint_widens hallowed hbailout _ _

end Search

/-! Runs that follow one way after the other. -/

/-- The same ways wait on both stacks, and more may wait on the second one. -/
inductive Stack.Wider : Stack → Stack → Prop
  | mk {frames : List Frame} {groups base most most' : Nat} : most ≤ most' →
      Wider ⟨frames, most, groups, base⟩ ⟨frames, most', groups, base⟩

/-- The same search waits, with a wider stack. -/
inductive Suspended.Wider : Suspended → Suspended → Prop
  | mk {path : Path} {body : Body} {goal : Goal} {stack stack' : Stack} {tried : Nat} :
      stack.Wider stack' → Wider ⟨path, body, goal, stack, tried⟩ ⟨path, body, goal, stack', tried⟩

/-- The same run, with wider stacks. -/
inductive Run.Wider : Run → Run → Prop
  | mk {phase : Phase} {goal : Goal} {stack stack' : Stack} {outer outer' : List Suspended}
      {committed : Bool} : stack.Wider stack' → List.Forall₂ Suspended.Wider outer outer' →
        Wider ⟨phase, goal, stack, outer, committed⟩ ⟨phase, goal, stack', outer', committed⟩

/-- Both steps end the run alike, or go on with the same run. -/
inductive Progress.Wider : Progress → Progress → Prop
  | running {r r' : Run} : r.Wider r' → Wider (.running r) (.running r')
  | finished (attempt : Attempt) : Wider (.finished attempt) (.finished attempt)

namespace Stack

variable {stack stack' : Stack}

theorem Wider.depth_eq (h : stack.Wider stack') : stack'.depth = stack.depth := by
  cases h
  rfl

theorem Wider.frames_eq (h : stack.Wider stack') : stack'.frames = stack.frames := by
  cases h
  rfl

theorem Wider.withFrames (h : stack.Wider stack') (frames : List Frame) :
    Wider { stack with frames := frames } { stack' with frames := frames } := by
  cases h with
  | mk hle => exact .mk hle

/-- A way that finds room on a stack finds room on a wider one. -/
theorem Wider.push (h : stack.Wider stack') {frame : Frame} {pushed : Stack}
    (hpush : stack.push frame = .ok pushed) :
    ∃ pushed', stack'.push frame = .ok pushed' ∧ pushed.Wider pushed' := by
  unfold Stack.push at hpush ⊢
  split at hpush
  · cases hpush
  · rename_i hroom
    cases hpush
    refine ⟨{ stack' with frames := frame :: stack'.frames }, ?_, ?_⟩
    · rw [if_neg]
      cases h with
      | mk hle => exact fun hfull => hroom (Nat.le_trans hle hfull)
    · rw [h.frames_eq]
      exact h.withFrames _

end Stack

namespace Run

variable {code : Code} {r r' : Run}

theorem Wider.pick (h : r.Wider r') : r.pick.Wider r'.pick := by
  cases h with
  | mk hstack houter => exact .mk hstack houter

theorem Wider.finish (h : r.Wider r') (position : Nat) (slots : Slots) :
    (r.finish search position slots).Wider (r'.finish search position slots) := by
  cases h with
  | mk hstack houter =>
    unfold Run.finish
    dsimp only
    split
    · exact .mk hstack houter
    · exact .mk hstack houter

theorem Wider.follow (h : r.Wider r') (frame : Frame) :
    (r.follow search frame).Wider (r'.follow search frame) := by
  cases frame with
  | accept position slots => exact h.finish position slots
  | follow path =>
    cases h with
    | mk hstack houter => exact .mk hstack houter

theorem liftExcept_widens {x y : Except Error Stack}
    (h : ∀ stack, x = .ok stack → ∃ stack', y = .ok stack' ∧ stack.Wider stack') :
    Widens narrow wide Stack.Wider (pushAll.liftExcept x) (pushAll.liftExcept y) := by
  intro t s stack hlimits hdeadline hrun
  cases x with
  | error e => cases hrun
  | ok stack =>
    cases hrun
    obtain ⟨stack', rfl, hwider⟩ := h stack rfl
    exact ⟨hlimits, hdeadline, stack', rfl, hwider⟩

theorem pushAll_widens (hallowed : narrow.AllowedBy wide) (hbailout : search.bailout = none)
    (frames : List Frame) : ∀ {stack stack' : Stack}, stack.Wider stack' →
      Widens narrow wide Stack.Wider (pushAll search stack frames)
        (pushAll search stack' frames) := by
  induction frames with
  | nil => exact fun h => widens_pure h
  | cons frame rest ih =>
    intro stack stack' h
    unfold pushAll
    rw [h.depth_eq]
    refine widens_bind_same (Search.checkPush_widens hallowed hbailout _ _) fun admitted => ?_
    split
    · exact widens_bind (liftExcept_widens fun _ hpush => h.push hpush) fun _ _ hpushed =>
        ih hpushed
    · exact ih h

theorem enterBody_widens (hallowed : narrow.AllowedBy wide) (h : r.Wider r') (groups : Nat)
    {s s' : Suspended} (hs : s.Wider s') :
    Widens narrow wide Run.Wider (r.enterBody groups s) (r'.enterBody groups s') := by
  cases hs with
  | mk hstack =>
    cases h with
    | mk _ houter =>
      unfold enterBody
      refine widens_get_bind fun t hlimits => ?_
      dsimp only
      rw [hstack.depth_eq]
      split
      · exact widens_throw _ _
      · rename_i pushed hpush
        have hle : t.limits.maxDepth ≤ (t.setLimits wide).limits.maxDepth :=
          hlimits ▸ hallowed.maxDepth_le
        obtain ⟨pushed', hpush', hwider⟩ := (Stack.Wider.mk hle).push hpush
        simp only [Stack.nested, hpush']
        exact widens_pure (.mk hwider (.cons (.mk hstack) houter))

theorem move_widens (hallowed : narrow.AllowedBy wide) (hbailout : search.bailout = none)
    (h : r.Wider r') (groups : Nat) (next : Move) :
    Widens narrow wide Run.Wider (r.move search groups next) (r'.move search groups next) := by
  cases next with
  | finish position slots => exact widens_pure (h.finish position slots)
  | ask body path =>
    refine enterBody_widens hallowed h groups ?_
    cases h with
    | mk hstack _ => exact .mk hstack
  | go ways cut =>
    cases h with
    | @mk _ _ stack stack' _ _ _ hstack houter =>
      have hreset : Stack.Wider (if cut then stack.reset else stack)
          (if cut then stack'.reset else stack') := by
        cases cut with
        | false => exact hstack
        | true => exact hstack.withFrames []
      unfold Run.move
      dsimp only
      cases ways with
      | nil => exact widens_pure (.mk hreset houter)
      | cons first others =>
        refine widens_bind (pushAll_widens hallowed hbailout _ hreset) fun _ _ hpushed => ?_
        exact widens_pure (Wider.follow (.mk hpushed houter) first)

theorem leave_widens (hallowed : narrow.AllowedBy wide) (hbailout : search.bailout = none)
    (h : r.Wider r') {s s' : Suspended} (hs : s.Wider s') {outer outer' : List Suspended}
    (houter : List.Forall₂ Suspended.Wider outer outer') (found : Option Found) :
    Widens narrow wide Run.Wider (r.leave code search s outer found)
      (r'.leave code search s' outer' found) := by
  cases h
  cases hs with
  | mk hstack =>
    unfold leave
    dsimp only
    split
    · exact enterBody_widens hallowed (.mk hstack houter) code.groups (.mk hstack)
    · split
      · exact move_widens hallowed hbailout (.mk hstack houter) code.groups _
      · exact widens_throw _ _

theorem enter_widens (hallowed : narrow.AllowedBy wide) (hbailout : search.bailout = none)
    (h : r.Wider r') (path : Path) :
    Widens narrow wide Run.Wider (r.enter code search path) (r'.enter code search path) := by
  unfold enter
  split
  · exact widens_pure h.pick
  · have hdepth : r'.stack.depth = r.stack.depth := by
      cases h with
      | mk hstack _ => exact hstack.depth_eq
    have hgoal : r'.goal = r.goal := by
      cases h
      rfl
    rw [hdepth, hgoal]
    refine widens_bind_same (Search.checkpoint_widens hallowed hbailout _ _) fun admitted => ?_
    split
    · dsimp only
      split
      · exact move_widens hallowed hbailout h code.groups _
      · exact widens_throw _ _
    · exact widens_pure h.pick

/-- A step that is made under narrow bounds is made under wide ones. -/
theorem step_widens (hallowed : narrow.AllowedBy wide) (hbailout : search.bailout = none)
    (h : r.Wider r') :
    Widens narrow wide Progress.Wider (r.step code search) (r'.step code search) := by
  unfold step
  cases h with
  | @mk phase goal stack stack' outer outer' committed hstack houter =>
    cases phase with
    | enter path =>
      refine widens_map (widens_mono ?_ fun _ _ => .running)
      exact enter_widens hallowed hbailout (.mk hstack houter) path
    | answer found =>
      cases houter with
      | nil => exact widens_pure (.finished _)
      | cons hs houter =>
        refine widens_map (widens_mono ?_ fun _ _ => .running)
        exact leave_widens hallowed hbailout (.mk hstack (.cons hs houter)) hs houter found
    | pick =>
      cases hstack with
      | @mk frames groups base most most' hle =>
        cases frames with
        | nil => exact widens_pure (.running (.mk (.mk hle) houter))
        | cons frame rest =>
          have hcounted := Search.checkpoint_widens hallowed hbailout
          refine widens_bind_same (hcounted _ _) fun admitted => ?_
          cases admitted with
          | true => exact widens_pure (.running (Wider.follow (.mk (.mk hle) houter) frame))
          | false => exact widens_pure (.running (.mk (.mk hle) houter))

/-- A run that ends under narrow bounds ends alike under wide ones. -/
theorem iterate_widens (hallowed : narrow.AllowedBy wide) (hbailout : search.bailout = none)
    (fuel : Nat) : ∀ {r r' : Run}, r.Wider r' →
      Widens narrow wide Eq (iterate code search fuel r) (iterate code search fuel r') := by
  induction fuel with
  | zero => exact fun _ => widens_throw _ _
  | succ fuel ih =>
    intro r r' h
    unfold iterate
    refine widens_bind (step_widens hallowed hbailout h) fun progress progress' hprogress => ?_
    cases hprogress with
    | running h => exact ih h
    | finished attempt => exact widens_pure rfl

end Run

theorem Code.search_widens (hallowed : narrow.AllowedBy wide) (hbailout : search.bailout = none)
    (code : Code) (initial start : Nat) :
    Widens narrow wide Eq (code.search search initial start)
      (code.search search initial start) := by
  unfold Code.search
  refine widens_get_bind fun t hlimits => ?_
  dsimp only
  split
  · exact widens_throw _ _
  · rename_i pushed hpush
    have hle : t.limits.maxDepth ≤ (t.setLimits wide).limits.maxDepth :=
      hlimits ▸ hallowed.maxDepth_le
    obtain ⟨pushed', hpush', hwider⟩ := (Stack.Wider.mk hle).push hpush
    simp only [Stack.new, Stack.nested, hpush']
    exact Run.iterate_widens hallowed hbailout _ (.mk hwider .nil)

/-! Runs that follow all ways at the same time, and walks along the one way of a deterministic
automaton. No way waits on a stack there. -/

namespace Automaton

variable {a : Automaton}

theorem visit_widens (hallowed : narrow.AllowedBy wide) (hbailout : search.bailout = none)
    (position waiting state : Nat) (slots : Slots) :
    Widens narrow wide Eq (a.visit search position waiting state slots)
      (a.visit search position waiting state slots) := by
  unfold visit
  refine widens_bind_same (Search.checkpoint_widens hallowed hbailout _ _) fun admitted => ?_
  split
  · split
    · split
      · exact widens_pure rfl
      · exact widens_pure rfl
    · exact widens_pure rfl
  · exact widens_pure rfl

/-- The induction is on the number of states that were not entered, and then on the errands. -/
theorem spread_widens (hallowed : narrow.AllowedBy wide) (hbailout : search.bailout = none)
    (position : Nat) (seen : Array Bool) (threads : List Thread) (errands : List Errand) :
    Widens narrow wide Eq (a.spread search position seen threads errands)
      (a.spread search position seen threads errands) := by
  induction seen, threads, errands using Automaton.spread.induct with
  | case1 seen threads =>
    rw [spread]
    exact widens_pure rfl
  | case2 seen threads thread rest ih =>
    rw [spread]
    exact ih
  | case3 seen threads s slots rest hlt hseen ih =>
    rw [spread, dif_pos hlt, dif_pos hseen]
    exact ih
  | case4 seen threads s slots rest hlt hseen ih =>
    rw [spread, dif_pos hlt, dif_neg hseen]
    exact widens_bind_same (visit_widens hallowed hbailout _ _ _ _) fun more => ih more
  | case5 seen threads s slots rest hlt ih =>
    rw [spread, dif_neg hlt]
    exact ih

theorem join_widens (hallowed : narrow.AllowedBy wide) (hbailout : search.bailout = none)
    (position : Nat) (front : Front) (state : Nat) (slots : Slots) :
    Widens narrow wide Eq (a.join search position front state slots)
      (a.join search position front state slots) := by
  unfold join
  exact widens_bind_same (spread_widens hallowed hbailout _ _ _ _) fun _ => widens_pure rfl

theorem advanceAll_widens (hallowed : narrow.AllowedBy wide) (hbailout : search.bailout = none)
    (position : Nat) (threads : List Thread) : ∀ (front : Front) (found : Option Found),
      Widens narrow wide Eq (a.advanceAll search position front found threads)
        (a.advanceAll search position front found threads) := by
  induction threads with
  | nil => exact fun _ _ => widens_pure rfl
  | cons thread rest ih =>
    intro front found
    cases thread with
    | accept slots =>
      rw [advanceAll]
      split
      · exact widens_pure rfl
      · exact ih front found
    | wait t slots =>
      rw [advanceAll]
      split
      · exact widens_bind_same (join_widens hallowed hbailout _ _ _ _) fun joined => ih joined found
      · exact ih front found

theorem race_widens (hallowed : narrow.AllowedBy wide) (hbailout : search.bailout = none)
    (fuel : Nat) : ∀ (position : Nat) (threads : List Thread) (found : Option Found),
      Widens narrow wide Eq (a.race search fuel position threads found)
        (a.race search fuel position threads found) := by
  induction fuel with
  | zero => exact fun _ _ _ => widens_pure rfl
  | succ fuel ih =>
    intro position threads found
    cases threads with
    | nil => exact widens_pure rfl
    | cons thread rest =>
      rw [race]
      · exact widens_bind_same (advanceAll_widens hallowed hbailout _ _ _ _) fun _ => ih _ _ _
      · simp

theorem lockstep_widens (hallowed : narrow.AllowedBy wide) (hbailout : search.bailout = none)
    (initial start : Nat) :
    Widens narrow wide Eq (a.lockstep search initial start) (a.lockstep search initial start) := by
  unfold lockstep
  refine widens_bind_same (join_widens hallowed hbailout _ _ _ _) fun front => ?_
  exact widens_map (widens_mono (race_widens hallowed hbailout _ _ _ _) fun _ _ => congrArg _)

theorem walk_widens (hallowed : narrow.AllowedBy wide) (hbailout : search.bailout = none)
    (fuel : Nat) : ∀ (state position : Nat) (last : Option Nat),
      Widens narrow wide Eq (a.walk search fuel state position last)
        (a.walk search fuel state position last) := by
  induction fuel with
  | zero => exact fun _ _ _ => widens_pure rfl
  | succ fuel ih =>
    intro state position last
    unfold walk
    refine widens_bind_same (Search.checkpoint_widens hallowed hbailout _ _) fun admitted => ?_
    split
    · split
      · exact ih _ _ _
      · exact widens_pure rfl
    · exact widens_pure rfl

theorem longest_widens (hallowed : narrow.AllowedBy wide) (hbailout : search.bailout = none)
    (initial start : Nat) :
    Widens narrow wide Eq (a.longest search initial start) (a.longest search initial start) := by
  unfold longest
  exact widens_bind_same (walk_widens hallowed hbailout _ _ _ _) fun _ => widens_pure rfl

theorem attempt_widens (hallowed : narrow.AllowedBy wide) (hbailout : search.bailout = none)
    (start : Nat) : Widens narrow wide Eq (a.attempt search start) (a.attempt search start) := by
  unfold attempt
  split
  · exact widens_throw _ _
  · split
    · exact longest_widens hallowed hbailout _ _
    · split
      · exact lockstep_widens hallowed hbailout _ _
      · exact Code.search_widens hallowed hbailout _ _ _

end Automaton

theorem Program.attempt_widens (hallowed : narrow.AllowedBy wide) (hbailout : search.bailout = none)
    (p : Program) (start : Nat) :
    Widens narrow wide Eq (p.attempt search start) (p.attempt search start) := by
  unfold attempt
  split
  · exact widens_throw _ _
  · exact Code.search_widens hallowed hbailout _ _ _

theorem Searcher.Executable.attempt_widens {x : Searcher} (hx : x.Executable)
    (hallowed : narrow.AllowedBy wide) (hbailout : search.bailout = none) (start : Nat) :
    Widens narrow wide Eq (x.attempt search start) (x.attempt search start) := by
  cases hx with
  | pattern p => exact p.automaton.attempt_widens hallowed hbailout start
  | automaton a => exact a.attempt_widens hallowed hbailout start
  | program p => exact p.attempt_widens hallowed hbailout start

/-! Contexts. -/

namespace Context

variable {c d : Context} {x : Searcher} {registry : LimitRegistry}

/-- The bounds that a context puts on a search. -/
def limitsFor? (c : Context) (x : Searcher) : Option SearchLimits :=
  (c.begin x).toOption.map (·.tracker.limits)

/-- Where nothing comes with a searcher, the bounds of a search are looked up in the registry. -/
theorem limitsFor?_eq (h : x.scaledLimits = none) :
    c.limitsFor? x = some (c.registry.effective x.id (some c.id)).limits := by
  unfold limitsFor? begin
  rw [h]
  cases x.id <;> rfl

/-- The same context, with other bounds to look up. -/
def withRegistry (c : Context) (registry : LimitRegistry) : Context :=
  { c with registry := registry }

/-- The same context, bounded by other bounds. -/
def boundedBy (c : Context) (registry : LimitRegistry) (limits : SearchLimits) : Context :=
  { c with registry := registry, tracker := c.tracker.setLimits limits }

/-- A search goes on under narrow bounds, without a deadline and without strategies. -/
structure IsUnder (narrow : SearchLimits) (c : Context) : Prop where
  limits_eq : c.tracker.limits = narrow
  deadline_eq : c.tracker.deadline = none
  bailout_eq : c.bailout = none

theorem tryAll_widens (hx : x.Executable) (hallowed : narrow.AllowedBy wide)
    (hbailout : search.bailout = none) (anchored : Bool) (places : List Nat) :
    Widens narrow wide Eq (tryAll x search anchored places) (tryAll x search anchored places) := by
  induction places with
  | nil => exact widens_pure rfl
  | cons start rest ih =>
    unfold tryAll
    refine widens_bind_same widens_beginAttempt fun _ => ?_
    refine widens_bind_same (hx.attempt_widens hallowed hbailout start) fun attempt => ?_
    split
    · exact widens_pure rfl
    · split
      · exact widens_pure rfl
      · exact ih

/-- What is found from a place on is found under wider bounds too. -/
theorem searchFrom_widens (hx : x.Executable) (hallowed : narrow.AllowedBy wide)
    (hc : c.IsUnder narrow) {start : Nat} {full anchored : Bool} {m : Option Match}
    (h : c.searchFrom x start full anchored = (.ok m, d)) (registry : LimitRegistry) :
    d.IsUnder narrow ∧ (c.boundedBy registry wide).searchFrom x start full anchored =
      (.ok m, d.boundedBy registry wide) := by
  have hbailout : (c.search x full).bailout = none := hc.bailout_eq
  have hall := tryAll_widens hx hallowed hbailout (anchored || x.flags.contains .anchored)
    (starts c.bounds.2 start) c.tracker
  unfold searchFrom at h ⊢
  dsimp only at h ⊢
  rcases hrun : (tryAll x (c.search x full) (anchored || x.flags.contains .anchored)
      (starts c.bounds.2 start)).run c.tracker with ⟨e | found, tracker⟩
  · rw [hrun] at h
    cases h
  · obtain ⟨hlimits, hdeadline, _, hwide, rfl⟩ :=
      hall tracker found hc.limits_eq hc.deadline_eq hrun
    rw [hrun] at h
    have hwide' : (tryAll x ((c.boundedBy registry wide).search x full)
        (anchored || x.flags.contains .anchored)
        (starts (c.boundedBy registry wide).bounds.2 start)).run
          (c.boundedBy registry wide).tracker = (.ok found, tracker.setLimits wide) := hwide
    rw [hwide']
    cases found with
    | none =>
      cases h
      exact ⟨⟨hlimits, hdeadline, hc.bailout_eq⟩, rfl⟩
    | some found =>
      cases h
      exact ⟨⟨hlimits, hdeadline, hc.bailout_eq⟩, rfl⟩

/-- All that is found from a place on is found under wider bounds too. -/
theorem collect_widens (hx : x.Executable) (hallowed : narrow.AllowedBy wide)
    (registry : LimitRegistry) (most fuel : Nat) :
    ∀ {c d : Context}, c.IsUnder narrow → ∀ {start : Nat} {found all : List Match},
      collect x most fuel c start found = (.ok all, d) →
        collect x most fuel (c.boundedBy registry wide) start found =
          (.ok all, d.boundedBy registry wide) := by
  induction fuel with
  | zero =>
    intro c d _ start found all h
    cases h
    rfl
  | succ fuel ih =>
    intro c d hc start found all h
    have hbounds : (c.boundedBy registry wide).bounds = c.bounds := rfl
    unfold collect at h ⊢
    rw [hbounds]
    dsimp only at h ⊢
    split at h
    · rename_i hpast
      rw [if_pos hpast]
      cases h
      rfl
    · rename_i hpast
      rw [if_neg hpast]
      rcases hsearch : c.searchFrom x start false false with ⟨e | m, c'⟩
      · rw [hsearch] at h
        cases h
      · obtain ⟨hc', hwide⟩ := searchFrom_widens hx hallowed hc hsearch registry
        rw [hsearch] at h
        rw [hwide]
        cases m with
        | none =>
          cases h
          rfl
        | some m =>
          dsimp only at h ⊢
          split at h
          · rename_i henough
            rw [if_pos henough]
            cases h
            rfl
          · rename_i henough
            rw [if_neg henough]
            exact ih hc' h

/-- A search starts with its bounds, and with nothing used up. -/
theorem eq_of_begin (h : c.begin x = .ok d) :
    d = { c with
      registry := d.registry
      tracker := (c.tracker.setLimits d.tracker.limits).start
      lastError := none } := by
  unfold begin at h
  dsimp only at h
  split at h
  · split at h
    · cases h
      rfl
    · obtain ⟨registry, -, h⟩ := bind_eq_ok.mp h
      cases h
      rfl
  · cases h
    rfl

/-- Without a longest time, two searches start alike up to their bounds. -/
theorem begin_widens (hnarrow : c.limitsFor? x = some narrow)
    (hwide : (c.withRegistry registry).limitsFor? x = some wide)
    (hduration : narrow.maxDurationMs = 0) (hduration' : wide.maxDurationMs = 0)
    (hbailout : c.bailout = none) :
    ∃ d registry', c.begin x = .ok d ∧ d.IsUnder narrow ∧
      (c.withRegistry registry).begin x = .ok (d.boundedBy registry' wide) := by
  unfold limitsFor? at hnarrow hwide
  rcases hbegin : c.begin x with e | d
  · rw [hbegin] at hnarrow
    cases hnarrow
  · rcases hbegin' : (c.withRegistry registry).begin x with e | d'
    · rw [hbegin'] at hwide
      cases hwide
    · rw [hbegin] at hnarrow
      rw [hbegin'] at hwide
      have hlimits : d.tracker.limits = narrow := Option.some.inj hnarrow
      have hlimits' : d'.tracker.limits = wide := Option.some.inj hwide
      have hd := eq_of_begin hbegin
      have hd' := eq_of_begin hbegin'
      rw [hlimits] at hd
      rw [hlimits'] at hd'
      refine ⟨d, d'.registry, rfl, ⟨hlimits, ?_, ?_⟩, ?_⟩
      · rw [hd]
        simp [Tracker.start, Tracker.setLimits, hduration]
      · rw [hd]
        exact hbailout
      · rw [hd', hd]
        simp [withRegistry, boundedBy, Tracker.start, Tracker.setLimits, hduration, hduration']

/-- What an operation on contexts answers with is what it answers with under wider bounds. -/
theorem perform_widens {α : Type} {action : Context → Except Error α × Context}
    (haction : ∀ {d e : Context} {value : α}, d.IsUnder narrow → action d = (.ok value, e) →
      ∀ registry, action (d.boundedBy registry wide) = (.ok value, e.boundedBy registry wide))
    (hnarrow : c.limitsFor? x = some narrow)
    (hwide : (c.withRegistry registry).limitsFor? x = some wide)
    (hduration : narrow.maxDurationMs = 0) (hduration' : wide.maxDurationMs = 0)
    (hbailout : c.bailout = none) {value : α} (h : (c.perform x action).1 = .ok value) :
    ((c.withRegistry registry).perform x action).1 = .ok value := by
  obtain ⟨d, registry', hbegin, hd, hbegin'⟩ :=
    begin_widens hnarrow hwide hduration hduration' hbailout
  rw [perform_fst hbegin] at h
  rw [perform_fst hbegin', haction hd (Prod.ext h rfl) registry']

/-- Bounds are only a guard. Whatever searches for a whole match, for the next match and for all
matches answer with, they answer with too where the depth and the number of transitions are bounded
less, or not at all. -/
theorem answers_of_allowedBy (hx : x.Executable) (hbailout : c.bailout = none)
    (hnarrow : c.limitsFor? x = some narrow)
    (hwide : (c.withRegistry registry).limitsFor? x = some wide)
    (hallowed : narrow.AllowedBy wide)
    (hduration : narrow.maxDurationMs = 0) (hduration' : wide.maxDurationMs = 0) :
    (∀ m, (c.matchWhole x).1 = .ok m →
      ((c.withRegistry registry).matchWhole x).1 = .ok m) ∧
    (∀ m, (c.findNext x).1 = .ok m →
      ((c.withRegistry registry).findNext x).1 = .ok m) ∧
    (∀ most found, (c.findAll x most).1 = .ok found →
      ((c.withRegistry registry).findAll x most).1 = .ok found) := by
  refine ⟨fun m h => ?_, fun m h => ?_, fun most found h => ?_⟩
  · refine perform_widens ?_ hnarrow hwide hduration hduration' hbailout h
    intro d e m hd hrun registry
    exact (searchFrom_widens hx hallowed hd hrun registry).2
  · by_cases hexhausted : c.exhausted = true
    · have hexhausted' : (c.withRegistry registry).exhausted = true := hexhausted
      unfold findNext at h ⊢
      rw [if_pos hexhausted] at h
      rw [if_pos hexhausted']
      exact h
    · rw [Bool.not_eq_true] at hexhausted
      have hexhausted' : (c.withRegistry registry).exhausted = false := hexhausted
      rw [findNext_fst hexhausted] at h
      rw [findNext_fst hexhausted']
      refine perform_widens ?_ hnarrow hwide hduration hduration' hbailout h
      intro d e m hd hrun registry
      exact (searchFrom_widens hx hallowed hd hrun registry).2
  · refine perform_widens ?_ hnarrow hwide hduration hduration' hbailout h
    intro d e found hd hrun registry
    exact collect_widens hx hallowed registry most _ hd hrun

private theorem parse_readA : Matcher.parse ['a'] = .ok (.literal ['a'] false) := rfl

private def readA : Label := ⟨['a'], .literal ['a'] false, parse_readA⟩

/-- An automaton for the letter `a` or nothing. -/
private def maybeA : Automaton where
  kind := .nfa
  states := #[
    { State.new 0 false with transitions := [⟨0, 1, some readA, 0⟩, ⟨0, 1, none, 0⟩] },
    .new 1 true]
  initial := some 0
  current := none
  flags := .empty
  lastError := none

/-- A context for two letters, in which one way may wait and an attempt may take six transitions. -/
private def tight : Context := (Context.new ⟨1, 0, 6⟩ 0).setInput #['a', 'b']

theorem answers_of_allowedBy_maybeA :
    ((tight.withRegistry (.ofLimits ⟨2, 0, 0⟩)).matchWhole maybeA.searcher).1 = .ok none ∧
      ((tight.withRegistry (.ofLimits ⟨2, 0, 0⟩)).findNext maybeA.searcher).1 =
        .ok (some ⟨0, 1, []⟩) ∧
      ((tight.withRegistry (.ofLimits ⟨2, 0, 0⟩)).findAll maybeA.searcher 0).1 =
        .ok [⟨0, 1, []⟩, ⟨1, 1, []⟩, ⟨2, 2, []⟩] := by
  have hwhole : (tight.matchWhole maybeA.searcher).1 = .ok none := by decide +kernel
  have hnext : (tight.findNext maybeA.searcher).1 = .ok (some ⟨0, 1, []⟩) := by decide +kernel
  have hall : (tight.findAll maybeA.searcher 0).1 =
      .ok [⟨0, 1, []⟩, ⟨1, 1, []⟩, ⟨2, 2, []⟩] := by
    decide +kernel
  have hnarrow : tight.limitsFor? maybeA.searcher = some ⟨1, 0, 6⟩ := limitsFor?_eq rfl
  have hwide : (tight.withRegistry (.ofLimits ⟨2, 0, 0⟩)).limitsFor? maybeA.searcher =
      some ⟨2, 0, 0⟩ :=
    limitsFor?_eq rfl
  obtain ⟨hwhole', hnext', hall'⟩ := answers_of_allowedBy (.automaton maybeA) rfl hnarrow hwide
    ⟨by decide, .inl rfl⟩ rfl rfl
  exact ⟨hwhole' _ hwhole, hnext' _ hnext, hall' _ _ hall⟩

end Context

end RegexEngine
