import RegexEngine.Automaton.Code
import RegexEngine.Proofs.Search.Tracked

/-!
What following one way after the other finds, said without the machine that does it. `Answers` takes
the ways that wait, in the order in which they are tried, and relates them to what is found; it
speaks of automata without actions, so no body is ever searched for.

Three facts carry the arguments about it. A search of several groups of ways goes through them in
order. Whether something is found never depends on what groups have taken. And the machine answers
as the relation says, whenever no bound stops it.
-/

namespace RegexEngine

namespace Frame

/-- A way without what groups have taken. -/
def bare : Frame → Frame
  | follow path => follow { path with slots := [] }
  | accept position _ => accept position []

end Frame

namespace Automaton

open Tracked

/-- The ways that a way leads to where it enters a state. -/
def expand (s : State) (search : Search) (path : Path) : List Frame :=
  if s.marks.holdAt search.input path.position then
    s.ways search.input false
      { path with
        slots := s.capture path.position path.slots
        trail := path.place :: path.trail }
  else []

/-- The ways are tried in order, and this is what is found. -/
inductive Answers (a : Automaton) (search : Search) : List Frame → Option Found → Prop
  | nil : Answers a search [] none
  | accepted {position : Nat} {slots : Slots} {rest : List Frame} :
      search.endsAt position = true →
        Answers a search (.accept position slots :: rest) (some ⟨position, slots⟩)
  | refused {position : Nat} {slots : Slots} {rest : List Frame} {found : Option Found} :
      search.endsAt position = false → Answers a search rest found →
        Answers a search (.accept position slots :: rest) found
  | repeated {path : Path} {rest : List Frame} {found : Option Found} :
      path.place ∈ path.trail → Answers a search rest found →
        Answers a search (.follow path :: rest) found
  | entered {path : Path} {s : State} {rest : List Frame} {found : Option Found} :
      path.place ∉ path.trail → a.states[path.place]? = some s →
        Answers a search (expand s search path ++ rest) found →
          Answers a search (.follow path :: rest) found

namespace Answers

variable {a : Automaton} {search : Search}

/-- Ways that lead nowhere make room for those after them. Once something is found, nothing is asked
of the ways that are left. -/
theorem append {before after : List Frame} {found other : Option Found}
    (h : Answers a search before found) (hafter : found = none → Answers a search after other) :
    Answers a search (before ++ after) (found.or other) := by
  induction h with
  | nil => simpa using hafter rfl
  | accepted hends => exact .accepted hends
  | refused hends _ ih => exact .refused hends (ih hafter)
  | repeated hseen _ ih => exact .repeated hseen (ih hafter)
  | entered hnew hstate _ ih =>
    rw [List.cons_append]
    refine .entered hnew hstate ?_
    rw [← List.append_assoc]
    exact ih hafter

theorem append_found {before : List Frame} {m : Found} (h : Answers a search before (some m))
    (after : List Frame) : Answers a search (before ++ after) (some m) := by
  have hnone : (some m).or none = some m := rfl
  rw [← hnone]
  refine h.append ?_
  intro hfound
  cases hfound

/-- What is found among two groups of ways is found in the first, or in the second after the first
has led nowhere. -/
theorem append_cases {ways : List Frame} {found : Option Found} (h : Answers a search ways found) :
    ∀ {before after : List Frame}, ways = before ++ after →
      (found.isSome = true ∧ Answers a search before found) ∨
        (Answers a search before none ∧ Answers a search after found) := by
  induction h with
  | nil =>
    intro before after heq
    obtain ⟨rfl, rfl⟩ := List.nil_eq_append_iff.mp heq
    exact .inr ⟨.nil, .nil⟩
  | accepted hends =>
    intro before after heq
    cases before with
    | nil =>
      cases (show _ = after from heq)
      exact .inr ⟨.nil, .accepted hends⟩
    | cons first before =>
      obtain ⟨rfl, rfl⟩ := List.cons.inj heq
      exact .inl ⟨rfl, .accepted hends⟩
  | refused hends hrest ih =>
    intro before after heq
    cases before with
    | nil =>
      cases (show _ = after from heq)
      exact .inr ⟨.nil, .refused hends hrest⟩
    | cons first before =>
      obtain ⟨rfl, hrestEq⟩ := List.cons.inj heq
      rcases ih hrestEq with ⟨hsome, hbefore⟩ | ⟨hbefore, hafter⟩
      · exact .inl ⟨hsome, .refused hends hbefore⟩
      · exact .inr ⟨.refused hends hbefore, hafter⟩
  | repeated hseen hrest ih =>
    intro before after heq
    cases before with
    | nil =>
      cases (show _ = after from heq)
      exact .inr ⟨.nil, .repeated hseen hrest⟩
    | cons first before =>
      obtain ⟨rfl, hrestEq⟩ := List.cons.inj heq
      rcases ih hrestEq with ⟨hsome, hbefore⟩ | ⟨hbefore, hafter⟩
      · exact .inl ⟨hsome, .repeated hseen hbefore⟩
      · exact .inr ⟨.repeated hseen hbefore, hafter⟩
  | entered hnew hstate hrest ih =>
    intro before after heq
    cases before with
    | nil =>
      cases (show _ = after from heq)
      exact .inr ⟨.nil, .entered hnew hstate hrest⟩
    | cons first before =>
      obtain ⟨rfl, rfl⟩ := List.cons.inj heq
      rcases ih (List.append_assoc ..).symm with ⟨hsome, hbefore⟩ | ⟨hbefore, hafter⟩
      · exact .inl ⟨hsome, .entered hnew hstate hbefore⟩
      · exact .inr ⟨.entered hnew hstate hbefore, hafter⟩

end Answers

private theorem bare_over (input : Array Char) {path other : Path}
    (h : (Frame.follow path).bare = (Frame.follow other).bare) (t : Transition) :
    (State.over? input path t).map Frame.bare = (State.over? input other t).map Frame.bare := by
  obtain ⟨place, position, slots, trail, counters⟩ := path
  obtain ⟨place', position', slots', trail', counters'⟩ := other
  simp only [Frame.bare, Frame.follow.injEq, Path.mk.injEq, true_and] at h
  obtain ⟨rfl, rfl, rfl, rfl⟩ := h
  simp [State.over?, Option.map_map, Function.comp_def, Frame.bare]

/-- Where ways lead does not depend on what groups have taken. -/
theorem map_bare_expand (s : State) (search : Search) {path other : Path}
    (h : (Frame.follow path).bare = (Frame.follow other).bare) :
    (expand s search path).map Frame.bare = (expand s search other).map Frame.bare := by
  obtain ⟨place, position, slots, trail, counters⟩ := path
  obtain ⟨place', position', slots', trail', counters'⟩ := other
  simp only [Frame.bare, Frame.follow.injEq, Path.mk.injEq, true_and] at h
  obtain ⟨rfl, rfl, rfl, rfl⟩ := h
  unfold expand
  split
  · simp only [State.ways, List.map_append, List.map_filterMap]
    congr 1
    · exact congrArg (List.filterMap · s.transitions)
        (funext fun t => bare_over search.input (by rfl) t)
    · split <;> rfl
  · rfl

namespace Answers

variable {a : Automaton} {search : Search}

/-- Ways lead nowhere, whatever groups have taken along them. -/
theorem none_of_bare {ways : List Frame} (h : Answers a search ways none) :
    ∀ {others : List Frame}, others.map Frame.bare = ways.map Frame.bare →
      Answers a search others none := by
  generalize hfound : (none : Option Found) = found at h
  induction h with
  | nil =>
    intro others hbare
    rw [List.map_nil, List.map_eq_nil_iff] at hbare
    exact hbare ▸ .nil
  | accepted _ => cases hfound
  | refused hends _ ih =>
    intro others hbare
    obtain ⟨first, rest, rfl, hfirst, hrest⟩ := List.map_eq_cons_iff.mp hbare
    cases first with
    | follow path => cases hfirst
    | accept position slots =>
      cases hfirst
      exact .refused hends (ih hfound hrest)
  | @repeated path rest found hseen _ ih =>
    intro others hbare
    obtain ⟨first, rest, rfl, hfirst, hrest⟩ := List.map_eq_cons_iff.mp hbare
    cases first with
    | accept position slots => cases hfirst
    | follow other =>
      obtain ⟨place, position, slots, trail, counters⟩ := other
      cases hfirst
      exact .repeated hseen (ih hfound hrest)
  | @entered path s rest found hnew hstate _ ih =>
    intro others hbare
    obtain ⟨first, rest, rfl, hfirst, hrest⟩ := List.map_eq_cons_iff.mp hbare
    cases first with
    | accept position slots => cases hfirst
    | follow other =>
      have hways := map_bare_expand s search hfirst
      obtain ⟨place, position, slots, trail, counters⟩ := other
      cases hfirst
      refine .entered hnew hstate (ih hfound ?_)
      rw [List.map_append, List.map_append, hways, hrest]

end Answers

end Automaton

/-!
The backtracking machine answers as `Automaton.Answers` says. What a run still has to do is the way
that it is on, followed by the ways on its stack; a step of an automaton without actions leaves the
answer to that as it is, and the last step hands it over.
-/

open Tracked

namespace Run

variable {a : Automaton} {search : Search} {found : Option Found}

/-- A run of one search, in which nothing was ruled out, and whose remaining ways lead to `found`. -/
structure LeadsTo (r : Run) (a : Automaton) (search : Search) (found : Option Found) : Prop where
  goal_eq : r.goal = .whole
  outer_eq : r.outer = []
  committed_eq : r.committed = false
  answers : match r.phase with
    | .pick => a.Answers search r.stack.frames found
    | .enter path => a.Answers search (.follow path :: r.stack.frames) found
    | .answer handed => handed = found

theorem leadsTo_pick {r : Run} {path : List Frame} (hgoal : r.goal = .whole)
    (houter : r.outer = []) (hcommitted : r.committed = false) (hpath : r.stack.frames = path)
    (h : a.Answers search path found) : r.pick.LeadsTo a search found :=
  ⟨hgoal, houter, hcommitted, by simpa only [pick, hpath] using h⟩

/-- To go on with a way is to have it before all others. -/
theorem leadsTo_follow {r : Run} (frame : Frame) (hgoal : r.goal = .whole) (houter : r.outer = [])
    (hcommitted : r.committed = false) (h : a.Answers search (frame :: r.stack.frames) found) :
    (r.follow search frame).LeadsTo a search found := by
  cases frame with
  | follow path => exact ⟨hgoal, houter, hcommitted, h⟩
  | accept position slots =>
    have hadmits : r.goal.admits search position = search.endsAt position := by
      rw [hgoal]
      rfl
    cases h with
    | accepted hends =>
      simp only [follow, finish, hadmits, hends, if_true]
      exact ⟨hgoal, houter, hcommitted, rfl⟩
    | refused hends hrest =>
      simp only [follow, finish, hadmits, hends, Bool.false_eq_true, if_false]
      exact leadsTo_pick hgoal houter hcommitted rfl hrest

/-- A way is put before those that wait, unless there are as many as may wait. -/
theorem push_cases (stack : Stack) (frame : Frame) :
    (∃ pushed, stack.push frame = .ok pushed ∧ pushed.frames = frame :: stack.frames) ∨
      ∃ fault : LimitFault, stack.push frame = .error fault.error := by
  unfold Stack.push
  split
  · exact .inr ⟨_, rfl⟩
  · exact .inl ⟨_, rfl, rfl⟩

theorem push_ensures (stack : Stack) (frame : Frame) :
    Ensures (pushAll.liftExcept (stack.push frame)) (·.frames = frame :: stack.frames) := by
  intro t
  rcases push_cases stack frame with ⟨pushed, hpush, hframes⟩ | ⟨fault, hpush⟩
  · refine .inr ⟨pushed, ?_, hframes⟩
    rw [hpush]
    rfl
  · refine .inl ?_
    rw [hpush]
    exact fault.error_isLimit

/-- The last of the ways that are put on the stack is the first that will be taken. -/
theorem pushAll_ensures (hbailout : search.bailout = none) (ways : List Frame) (stack : Stack) :
    Ensures (pushAll search stack ways) (·.frames = ways.reverse ++ stack.frames) := by
  induction ways generalizing stack with
  | nil => exact ensures_pure rfl
  | cons frame rest ih =>
    unfold pushAll
    refine ensures_bind (Search.checkPush_ensures hbailout _ _) ?_
    intro admitted hadmitted
    rw [hadmitted, if_pos rfl]
    refine ensures_bind (push_ensures stack frame) ?_
    intro pushed hpushed
    refine ensures_mono (ih pushed) ?_
    intro final hfinal
    rw [hfinal, hpushed, List.reverse_cons, List.append_assoc]
    rfl

/-- To go on in several ways is to have them before all others. -/
theorem move_go_ensures (hbailout : search.bailout = none) {r : Run} (groups : Nat)
    (ways : List Frame) (hgoal : r.goal = .whole) (houter : r.outer = [])
    (hcommitted : r.committed = false) (h : a.Answers search (ways ++ r.stack.frames) found) :
    Ensures (r.move search groups (.go ways false)) (·.LeadsTo a search found) := by
  cases ways with
  | nil => exact ensures_pure (leadsTo_pick hgoal houter (by simp [hcommitted]) rfl h)
  | cons first others =>
    unfold move
    refine ensures_bind (pushAll_ensures hbailout others.reverse _) ?_
    intro stack hstack
    refine ensures_pure (leadsTo_follow first hgoal houter (by simp [hcommitted]) ?_)
    simpa [hstack] using h

end Run

namespace Automaton

variable {a : Automaton} {search : Search} {found : Option Found}

/-- Without an action, a state that is entered leads on over its transitions. -/
theorem enter_eq_expand {s : State} (haction : s.action = none) (search : Search) (path : Path) :
    s.enter search.input false { path with trail := path.place :: path.trail } =
      .go (expand s search path) false := by
  unfold State.enter expand
  split
  · simp [State.act, haction, State.proceed]
  · rfl

theorem action_eq_none {place : Nat} {s : State} (hactions : a.hasActions = false)
    (h : a.states[place]? = some s) : s.action = none := by
  have hmem : s ∈ a.states := Array.mem_of_getElem? h
  simpa using Array.any_eq_false'.mp hactions s hmem

theorem enter_ensures (hactions : a.hasActions = false) (hbailout : search.bailout = none)
    {r : Run} {path : Path} (hgoal : r.goal = .whole) (houter : r.outer = [])
    (hcommitted : r.committed = false)
    (h : a.Answers search (.follow path :: r.stack.frames) found) :
    Ensures (r.enter a.code search path) (·.LeadsTo a search found) := by
  unfold Run.enter
  cases h with
  | repeated hseen hrest =>
    rw [if_pos (List.contains_iff_mem.mpr hseen)]
    exact ensures_pure (Run.leadsTo_pick hgoal houter hcommitted rfl hrest)
  | @entered _ s _ _ hnew hstate hrest =>
    rw [if_neg (by simpa using hnew)]
    refine ensures_bind (Search.checkpoint_ensures hbailout _ _) ?_
    intro admitted hadmitted
    rw [hadmitted, if_pos rfl]
    have henter : a.code.enter search.input r.goal.isBody
        { path with trail := path.place :: path.trail } = .ok (.go (expand s search path) false) := by
      rw [hgoal]
      simp only [code, state, hstate, Goal.isBody]
      exact congrArg Except.ok (enter_eq_expand (action_eq_none hactions hstate) search path)
    simp only [henter]
    exact Run.move_go_ensures hbailout _ _ hgoal houter hcommitted hrest

/-- One step leaves the answer of a run as it is. -/
theorem step_ensures (hactions : a.hasActions = false) (hbailout : search.bailout = none)
    {r : Run} (h : r.LeadsTo a search found) :
    Ensures (r.step a.code search) fun
      | .running next => next.LeadsTo a search found
      | .finished attempt => attempt = .ofFound found := by
  obtain ⟨hgoal, houter, hcommitted, hanswers⟩ := h
  unfold Run.step
  cases hphase : r.phase with
  | enter path =>
    simp only [hphase] at hanswers ⊢
    exact ensures_map (enter_ensures hactions hbailout hgoal houter hcommitted hanswers)
  | answer handed =>
    simp only [hphase] at hanswers
    simp only [houter, hcommitted, hanswers]
    exact ensures_pure rfl
  | pick =>
    simp only [hphase] at hanswers
    cases hframes : r.stack.frames with
    | nil =>
      rw [hframes] at hanswers
      cases hanswers
      simp only [Stack.pop?, hframes]
      exact ensures_pure ⟨hgoal, houter, hcommitted, rfl⟩
    | cons frame rest =>
      rw [hframes] at hanswers
      simp only [Stack.pop?, hframes]
      refine ensures_bind (Search.checkpoint_ensures hbailout _ _) ?_
      intro admitted hadmitted
      rw [hadmitted, if_pos rfl]
      exact ensures_pure (Run.leadsTo_follow frame hgoal houter hcommitted hanswers)

/-- A whole run ends with its answer, if it ends before a bound. -/
theorem iterate_ensures (hactions : a.hasActions = false) (hbailout : search.bailout = none)
    (fuel : Nat) {r : Run} (h : r.LeadsTo a search found) :
    Ensures (Run.iterate a.code search fuel r) (· = .ofFound found) := by
  induction fuel generalizing r with
  | zero => exact ensures_throw_limit _
  | succ fuel ih =>
    unfold Run.iterate
    refine ensures_bind (step_ensures hactions hbailout h) ?_
    intro progress hprogress
    cases progress with
    | finished attempt => exact ensures_pure hprogress
    | running next => exact ih hprogress

/-- Backtracking from a place answers as the relation says of the one way that starts there. -/
theorem search_ensures (hactions : a.hasActions = false) (hbailout : search.bailout = none)
    {initial start : Nat}
    (h : a.Answers search [.follow (.start initial start (.unset a.groupCount))] found) :
    Ensures (a.code.search search initial start) (· = .ofFound found) := by
  unfold Code.search
  apply ensures_get_bind
  intro t
  dsimp only
  rcases Run.push_cases (Stack.new t.limits.maxDepth a.code.groups)
      (.follow (.start initial start (.unset a.code.groups))) with
    ⟨stack, hpush, hframes⟩ | ⟨fault, hpush⟩
  · have hstart : (Run.start stack).LeadsTo a search found := by
      refine ⟨rfl, rfl, rfl, ?_⟩
      simp only [Run.start, hframes]
      exact h
    simp only [hpush]
    exact iterate_ensures hactions hbailout _ hstart
  · simp only [hpush]
    exact ensures_throw_limit fault

end Automaton

end RegexEngine
