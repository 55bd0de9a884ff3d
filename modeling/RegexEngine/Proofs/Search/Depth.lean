import RegexEngine.Proofs.Search.Successive
import RegexEngine.Proofs.Search.Traces

/-!
How deep searches become, and how they are marked. At no moment of a search do more ways wait in it
and in the searches around it than the greatest depth allows, and the tracker never sees a greater
depth.

A search that stops at a bound is marked in its tracker, with one exception. A search for a body
puts its first way on a stack of its own, without asking the tracker; where the stacks below are
full, this fails, and the mark is not set.
-/

namespace RegexEngine

open Tracked

/-! The greatest depth. -/

/-- A tracker with certain bounds that has seen no greater depth than they allow. -/
structure Tracker.Within (limits : SearchLimits) (t : Tracker) : Prop where
  limits_eq : t.limits = limits
  peakDepth_le : t.peakDepth ≤ limits.maxDepth

/-- No search goes deeper than allowed, however it ends. -/
theorem Tracker.law_within (limits : SearchLimits) :
    Law limits.maxDepth (·.Within limits) fun _ t => t.Within limits where
  maxDepth_eq _ ht := congrArg SearchLimits.maxDepth ht.limits_eq
  count _ _ hdepth ht := ⟨ht.limits_eq, Nat.max_le.mpr ⟨ht.peakDepth_le, hdepth⟩⟩
  peak _ _ hdepth ht := ⟨ht.limits_eq, Nat.max_le.mpr ⟨ht.peakDepth_le, hdepth⟩⟩
  stop _ _ _ ht := ⟨ht.limits_eq, ht.peakDepth_le⟩
  timeOut _ ht := ⟨ht.limits_eq, ht.peakDepth_le⟩
  full _ ht := ht
  outOfSteps _ ht := ht
  apart _ _ _ ht := ht

/-- No search changes its bounds. -/
theorem Tracker.law_limits (limits : SearchLimits) :
    Law limits.maxDepth (·.limits = limits) fun _ t => t.limits = limits where
  maxDepth_eq _ ht := congrArg SearchLimits.maxDepth ht
  count _ _ _ ht := ht
  peak _ _ _ ht := ht
  stop _ _ _ ht := ht
  timeOut _ ht := ht
  full _ ht := ht
  outOfSteps _ ht := ht
  apart _ _ _ ht := ht

/-- Searchers that follow one way after the other: programs, and automata that are not followed in
lockstep. -/
inductive Searcher.Backtracks (mode : SearchMode) : Searcher → Prop
  | automaton (a : Automaton) (h : mode = .lockstep → a.supportsLockstep = false) :
    Backtracks mode a.searcher
  | pattern (p : Pattern) (h : mode = .lockstep → p.automaton.supportsLockstep = false) :
    Backtracks mode p.searcher
  | program (p : Program) : Backtracks mode p.searcher

theorem Searcher.Backtracks.executable {x : Searcher} {mode : SearchMode}
    (hx : x.Backtracks mode) : x.Executable := by
  cases hx with
  | automaton a _ => exact .automaton a
  | pattern p _ => exact .pattern p
  | program p => exact .program p

section

variable {maxDepth : Nat} {inv : Tracker → Prop} {fail : Error → Tracker → Prop}

theorem Automaton.attempt_upholds (law : Tracker.Law maxDepth inv fail) {a : Automaton}
    {search : Search} (hlockstep : search.mode = .lockstep → a.supportsLockstep = true →
      ∀ depth position, Upholds inv fail (search.checkpoint depth position) fun _ => True)
    (start : Nat) : Upholds inv fail (a.attempt search start) fun _ => True := by
  unfold attempt
  split
  · exact upholds_throw fun t => law.apart _ t (AutomatonFault.failsApart (α := Unit) _ _ rfl)
  · split
    · exact longest_upholds (law.checkpoint search (Nat.zero_le _)) _ _
    · split
      · rename_i hboth
        simp only [Bool.and_eq_true, decide_eq_true_eq] at hboth
        exact lockstep_upholds (hlockstep hboth.1 hboth.2) _ _
      · exact a.failsApart_code.search_upholds law _ _

theorem Program.attempt_upholds (law : Tracker.Law maxDepth inv fail) (p : Program)
    (search : Search) (start : Nat) :
    Upholds inv fail (p.attempt search start) fun _ => True := by
  unfold attempt
  split
  · exact upholds_throw fun t => law.apart _ t (ProgramFault.failsApart (α := Unit) _ _ rfl)
  · exact p.failsApart_code.search_upholds law _ _

theorem Searcher.Backtracks.attempt_upholds (law : Tracker.Law maxDepth inv fail) {x : Searcher}
    {mode : SearchMode} (hx : x.Backtracks mode) {search : Search} (hmode : search.mode = mode)
    (start : Nat) : Upholds inv fail (x.attempt search start) fun _ => True := by
  have hnever {a : Automaton} (h : mode = .lockstep → a.supportsLockstep = false) :
      search.mode = .lockstep → a.supportsLockstep = true → ∀ depth position,
        Upholds inv fail (search.checkpoint depth position) fun _ => True := by
    intro hlockstep hsupports
    rw [h (hmode ▸ hlockstep)] at hsupports
    cases hsupports
  cases hx with
  | automaton a h => exact Automaton.attempt_upholds law (hnever h) start
  | pattern p h => exact Automaton.attempt_upholds law (hnever h) start
  | program p => exact p.attempt_upholds law search start

end

/-! Moments of a run. -/

/-- In its next step, a run makes a move with a certain tracker: after it has entered a place, or
after a body was answered for. In the second case it goes on as the search around the body. -/
inductive Run.MakesMove (code : Code) (search : Search) (t : Tracker) :
    Run → Run → Move → Tracker → Prop
  | entered {r : Run} {path : Path} {move : Move} {t' : Tracker} : r.phase = .enter path →
      path.trail.contains path.place = false →
        (search.checkpoint r.stack.depth path.position).run t = (.ok true, t') →
          code.enter search.input r.goal.isBody path.entered = .ok move →
            MakesMove code search t r r move t'
  | answered {r : Run} {found : Option Found} {s : Suspended} {outer : List Suspended}
      {move : Move} : r.phase = .answer found → r.outer = s :: outer →
      (found.isNone && s.body.behind && decide (0 < s.tried)) = false →
        code.resume search.input s.goal.isBody s.path found = .ok move →
          MakesMove code search t r
            { r with phase := .pick, goal := s.goal, stack := s.stack, outer := outer } move t

/-- A search that starts at a place of the code comes to a run and a tracker, after some steps. -/
def Code.ComesTo (code : Code) (search : Search) (initial start : Nat) (t : Tracker) (r : Run)
    (t' : Tracker) : Prop :=
  ∃ n stack, (Stack.new t.limits.maxDepth code.groups).push
      (.follow (.start initial start (.unset code.groups))) = .ok stack ∧
    (Run.steps code search n (.start stack)).run t = (.ok (.running r), t')

/-- The moments of a search: between two steps, and while the ways of a move are put on the stack
one after the other. -/
inductive Code.Moment (code : Code) (search : Search) (initial start : Nat) (t : Tracker) :
    Run → Prop
  | between {r : Run} {t' : Tracker} : code.ComesTo search initial start t r t' →
      Moment code search initial start t r
  | pushing {r around : Run} {first : Frame} {others pushed : List Frame} {cut : Bool}
      {stack : Stack} {t₁ t₂ t₃ : Tracker} : code.ComesTo search initial start t r t₁ →
      r.MakesMove code search t₁ around (.go (first :: others) cut) t₂ →
        pushed <+: others.reverse →
          (Run.pushAll search (if cut then around.stack.reset else around.stack) pushed).run t₂ =
              (.ok stack, t₃) →
            Moment code search initial start t { around with stack := stack }

section

variable {code : Code} {search : Search} {initial start maxDepth : Nat} {t t' : Tracker} {r : Run}

/-- The move is made where the stacks stand on each other. -/
theorem Run.MakesMove.piled {around : Run} {move : Move}
    (h : r.MakesMove code search t around move t') (hr : r.Piled maxDepth) :
    around.Piled maxDepth := by
  cases h with
  | entered => exact hr
  | answered _ houter _ _ =>
    unfold Run.Piled at hr
    rw [houter] at hr
    exact hr.2

theorem Run.MakesMove.limits_eq {around : Run} {move : Move}
    (h : r.MakesMove code search t around move t') (hr : r.Piled t.limits.maxDepth) :
    t'.limits = t.limits := by
  cases h with
  | entered _ _ hpassed _ =>
    have hkept := (Tracker.law_limits t.limits).checkpoint search hr.depth_le
    exact ((hkept _).of_run rfl hpassed).1
  | answered => rfl

/-- No more ways wait at any moment of a search than its greatest depth allows. -/
theorem Code.FailsApart.waiting_le (hcode : code.FailsApart)
    (h : code.Moment search initial start t r) : r.waiting ≤ t.limits.maxDepth := by
  have hcomes : ∀ {r : Run} {t' : Tracker}, code.ComesTo search initial start t r t' →
      t'.limits = t.limits ∧ r.Piled t.limits.maxDepth := by
    rintro r t' ⟨n, stack, hpush, hsteps⟩
    have hstart : (Run.start stack).Piled t.limits.maxDepth := Stack.piled_new hpush
    exact (Run.steps_upholds (Tracker.law_limits t.limits) hcode n hstart).of_run rfl hsteps
  cases h with
  | between hrun => exact (hcomes hrun).2.waiting_le
  | @pushing r around first others pushed cut stack t₁ t₂ t₃ hrun hmove hpushed hpush =>
    -- While ways are put on a stack, those below are as they were when the move was made.
    obtain ⟨hlimits, hpiled⟩ := hcomes hrun
    have hlimits' : t₂.limits = t.limits := by
      rw [hmove.limits_eq (hlimits ▸ hpiled), hlimits]
    have hstack : Run.Piled t.limits.maxDepth { around with stack := stack } :=
      ((Run.pushAll_upholds (Tracker.law_limits t.limits) pushed
        ((hmove.piled hpiled).cut cut)).of_run hlimits' hpush).2
    exact hstack.waiting_le

end

/-- A search that has just been started is within the bounds that it started with. -/
theorem Context.exists_begin_within {x : Searcher} (hx : x.Executable) (c : Context) :
    ∃ d limits, c.begin x = .ok d ∧ c.limitsFor? x = some limits ∧ d.tracker.Within limits := by
  obtain ⟨registry, tracker, hbegin⟩ := c.exists_begin hx.scope
  refine ⟨_, tracker.limits, hbegin, ?_, rfl, ?_⟩
  · unfold limitsFor?
    rw [hbegin]
    rfl
  · rw [eq_of_begin hbegin]
    exact Nat.zero_le _

/-- The greatest depth bounds what waits. At every moment of a search through an automaton or a
program, the ways that wait in it and in all searches around it are no more than the greatest depth
allows. An operation on a context never sees a greater depth either, whether it succeeds or fails;
and one that is skipped changes nothing. -/
theorem depth_bounded :
    (∀ (a : Automaton) (search : Search) (initial start : Nat) (t : Tracker) (r : Run),
      a.code.Moment search initial start t r → r.waiting ≤ t.limits.maxDepth) ∧
    (∀ (p : Program) (search : Search) (initial start : Nat) (t : Tracker) (r : Run),
      p.code.Moment search initial start t r → r.waiting ≤ t.limits.maxDepth) ∧
    ∀ (x : Searcher) (c : Context), x.Backtracks c.mode →
      ∃ limits, c.limitsFor? x = some limits ∧ (c.matchWhole x).2.tracker.Within limits ∧
        (∀ most, (c.findAll x most).2.tracker.Within limits) ∧
        if c.exhausted then (c.findNext x).2 = c else (c.findNext x).2.tracker.Within limits := by
  refine ⟨fun a search initial start t r h => a.failsApart_code.waiting_le h,
    fun p search initial start t r h => p.failsApart_code.waiting_le h, fun x c hx => ?_⟩
  obtain ⟨d, limits, hbegin, hlimits, hwithin⟩ := c.exists_begin_within hx.executable
  have hobeys : Context.Obeys x c.mode (·.Within limits) fun _ t => t.Within limits :=
    ⟨fun _ start hmode => hx.attempt_upholds (Tracker.law_within limits) hmode start,
      fun _ ht => ⟨ht.limits_eq, ht.peakDepth_le⟩⟩
  obtain ⟨hwhole, hnext, hall⟩ := Context.searches_leave hobeys rfl hbegin hwithin
  refine ⟨limits, hlimits, hwhole.of_both, fun most => (hall most).of_both, ?_⟩
  split
  · rename_i hexhausted
    unfold Context.findNext
    rw [if_pos hexhausted]
  · rename_i hleft
    exact (hnext (Bool.eq_false_iff.mpr hleft)).of_both

/-- Two ways, the first of which looks ahead, with two ways again. -/
private def nestedWays : Program :=
  { Program.empty with
    instrs := #[.split 1 2, .look .ahead 3 2, .accept, .split 2 4, .char 'a' false] }

private def fromStart : Search := ⟨#['a'], false, .backtracking, none, false, .still⟩

theorem depth_bounded_on_nestedWays :
    (∃ r, nestedWays.code.Moment fromStart 0 0 (.new ⟨2, 0, 0⟩) r ∧ r.outer.length = 1 ∧
      r.waiting = 2 ∧ r.waiting ≤ 2) ∧
    (∃ r, (Automaton.empty .nfa).code.Moment fromStart 0 0 (.new ⟨1, 0, 0⟩) r ∧
      r.waiting = 1 ∧ r.waiting ≤ 1) ∧
    ∃ limits, ((Context.new ⟨2, 0, 0⟩ 0).setInput #['a']).limitsFor? nestedWays.searcher =
        some limits ∧
      (((Context.new ⟨2, 0, 0⟩ 0).setInput #['a']).matchWhole nestedWays.searcher).2.tracker.Within
        limits := by
  have hnested : ∃ r t, nestedWays.code.ComesTo fromStart 0 0 (.new ⟨2, 0, 0⟩) r t ∧
      r.outer.length = 1 ∧ r.waiting = 2 := ⟨_, _, ⟨3, _, rfl, rfl⟩, rfl, rfl⟩
  have hfirst : ∃ r t, (Automaton.empty .nfa).code.ComesTo fromStart 0 0 (.new ⟨1, 0, 0⟩) r t ∧
      r.waiting = 1 := ⟨_, _, ⟨0, _, rfl, rfl⟩, rfl⟩
  obtain ⟨r, t, hr, houter, hwaiting⟩ := hnested
  obtain ⟨r', t', hr', hwaiting'⟩ := hfirst
  obtain ⟨hautomata, hprograms, hcontexts⟩ := depth_bounded
  obtain ⟨limits, hlimits, hwhole, -⟩ :=
    hcontexts nestedWays.searcher ((Context.new ⟨2, 0, 0⟩ 0).setInput #['a']) (.program _)
  exact ⟨⟨r, .between hr, houter, hwaiting, hprograms _ _ _ _ _ _ (.between hr)⟩,
    ⟨r', .between hr', hwaiting', hautomata _ _ _ _ _ _ (.between hr')⟩,
    limits, hlimits, hwhole⟩

/-! Marks. -/

/-- A tracker with certain bounds whose search was not stopped. -/
structure Tracker.Unmarked (limits : SearchLimits) (t : Tracker) : Prop where
  limits_eq : t.limits = limits
  aborted_eq : t.aborted = false

/-- What a tracker tells of a failure. A mark says that a bound was reached. Without a mark, no
bound was reached, or there was no room for the first way of a search, or a run has made all steps
that can be counted. -/
structure Tracker.Tells (maxDepth : Nat) (e : Error) (t : Tracker) : Prop where
  isLimit : t.aborted = true → e.IsLimit
  aborted : e.IsLimit → t.aborted = true ∨ e = (LimitFault.pendingDepth maxDepth).error ∨
    e = (LimitFault.transitions Run.maxSteps).error

namespace Tracker

variable {limits : SearchLimits} {maxDepth : Nat} {e : Error} {t : Tracker}

theorem aborted_stop (t : Tracker) : t.stop.aborted = true := by
  simp [aborted, stop]

theorem tells_of_aborted (haborted : t.aborted = true) (he : e.IsLimit) : t.Tells maxDepth e :=
  ⟨fun _ => he, fun _ => .inl haborted⟩

theorem Unmarked.tells (ht : t.Unmarked limits)
    (h : e.IsLimit → e = (LimitFault.pendingDepth maxDepth).error ∨
      e = (LimitFault.transitions Run.maxSteps).error) : t.Tells maxDepth e :=
  ⟨fun haborted => by simp [ht.aborted_eq] at haborted, fun he => .inr (h he)⟩

theorem Unmarked.count (ht : t.Unmarked limits) (depth : Nat) : (t.count depth).Unmarked limits :=
  ⟨ht.limits_eq, ht.aborted_eq⟩

/-- A search that goes on is not marked, and one that fails is marked as its failure says. -/
theorem law_marks (limits : SearchLimits) :
    Law limits.maxDepth (·.Unmarked limits) fun e t => t.Tells limits.maxDepth e where
  maxDepth_eq _ ht := congrArg SearchLimits.maxDepth ht.limits_eq
  count _ depth _ ht := ht.count depth
  peak _ _ _ ht := ⟨ht.limits_eq, ht.aborted_eq⟩
  stop _ t he _ := tells_of_aborted t.aborted_stop he
  timeOut _ _ := tells_of_aborted (by simp [aborted]) (LimitFault.error_isLimit _)
  full _ ht := ht.tells fun _ => .inl rfl
  outOfSteps _ ht := ht.tells fun _ => .inr rfl
  apart _ _ he ht := ht.tells fun he' => absurd he' he

end Tracker

/-- Attempts in all modes mark the tracker as they fail. -/
theorem Searcher.Executable.marks {x : Searcher} (hx : x.Executable) (limits : SearchLimits)
    (search : Search) (start : Nat) :
    Upholds (·.Unmarked limits) (fun e t => t.Tells limits.maxDepth e) (x.attempt search start)
      fun _ => True := by
  have law := Tracker.law_marks limits
  have hcheckpoint (depth position : Nat) :=
    search.checkpoint_upholds position (fun _ ht => ht.count depth) law.stop law.timeOut
  cases hx with
  | pattern p => exact Automaton.attempt_upholds law (fun _ _ => hcheckpoint) start
  | automaton a => exact Automaton.attempt_upholds law (fun _ _ => hcheckpoint) start
  | program p => exact p.attempt_upholds law search start

/-- The mark tells the truth about what it was set for. After an operation that was not skipped, in
any mode and with any manager: where it answered there is no mark; where there is a mark, a bound
was reached; and where a bound was reached without a mark, it was the first way of a search that
found no room, or a run has made all steps that can be counted. -/
theorem marks_tell (x : Searcher) (hx : x.Executable) (c : Context) :
    ∃ limits, c.limitsFor? x = some limits ∧
      Context.Leaves (·.Unmarked limits) (fun e t => t.Tells limits.maxDepth e) (c.matchWhole x) ∧
      (∀ most, Context.Leaves (·.Unmarked limits) (fun e t => t.Tells limits.maxDepth e)
        (c.findAll x most)) ∧
      (c.exhausted = false →
        Context.Leaves (·.Unmarked limits) (fun e t => t.Tells limits.maxDepth e)
          (c.findNext x)) := by
  obtain ⟨d, limits, hbegin, hlimits, hwithin⟩ := c.exists_begin_within hx
  have hobeys : Context.Obeys x c.mode (·.Unmarked limits)
      fun e t => t.Tells limits.maxDepth e :=
    ⟨fun search start _ => hx.marks limits search start,
      fun _ ht => ⟨ht.limits_eq, ht.aborted_eq⟩⟩
  have hunmarked : d.tracker.Unmarked limits := by
    refine ⟨hwithin.limits_eq, ?_⟩
    rw [Context.eq_of_begin hbegin]
    rfl
  obtain ⟨hwhole, hnext, hall⟩ := Context.searches_leave hobeys rfl hbegin hunmarked
  exact ⟨limits, hlimits, hwhole, hall, hnext⟩

/-- Where the only way that may wait does so, a body cannot be searched for: the operation fails at
its bound, and is not marked. -/
theorem matchWhole_nestedWays_unmarked :
    ((((Context.new ⟨1, 0, 0⟩ 0).setInput #['a']).matchWhole nestedWays.searcher).1 =
      .error (LimitFault.pendingDepth 1).error) ∧
    (((Context.new ⟨1, 0, 0⟩ 0).setInput #['a']).matchWhole nestedWays.searcher).2.tracker.aborted =
      false := by
  decide +kernel

end RegexEngine
