import RegexEngine.Proofs.Search.Machine

/-!
The machine gets to where `Code.Gives` says that a search ends. So many steps of a run are made one
after the other; a run reaches what holds after some number of them, whatever was used up before,
unless it is stopped at a bound. Every part of a search is reached from where the machine starts it,
by induction on how the part ends: a body leaves everything around it as it was.

The same steps say which paths a search ever enters: none but those that its code keeps to.
-/

namespace RegexEngine

open Tracked

namespace Run

variable {code : Code} {search : Search} {post mid : Run → Prop}

/-- Makes so many steps, or fewer if the run ends. -/
def steps (code : Code) (search : Search) : Nat → Run → Tracked Progress
  | 0, r => pure (.running r)
  | n + 1, r => do
    match ← r.step code search with
    | .finished attempt => pure (.finished attempt)
    | .running next => steps code search n next

/-- After some steps the run is one of which something holds, unless it is stopped at a bound. -/
def Reaches (code : Code) (search : Search) (r : Run) (post : Run → Prop) : Prop :=
  ∀ t : Tracker, ∃ n, StoppedAtLimit ((steps code search n r).run t).1 ∨
    ∃ next, ((steps code search n r).run t).1 = .ok (.running next) ∧ post next

theorem reaches_self {r : Run} (h : post r) : r.Reaches code search post :=
  fun _ => ⟨0, .inr ⟨r, rfl, h⟩⟩

theorem run_steps_succ (n : Nat) (r : Run) (t : Tracker) :
    (steps code search (n + 1) r).run t =
      match (r.step code search).run t with
      | (.ok (.running next), t') => (steps code search n next).run t'
      | (.ok (.finished attempt), t') => (.ok (.finished attempt), t')
      | (.error e, t') => (.error e, t') := by
  rw [steps, run_bind]
  rcases (r.step code search).run t with ⟨e | progress, t'⟩
  · rfl
  · cases progress <;> rfl

/-- What is reached after a step is reached. -/
theorem reaches_of_step {r : Run} (h : Ensures (r.step code search) fun progress =>
    ∃ next, progress = .running next ∧ next.Reaches code search post) :
    r.Reaches code search post := by
  intro t
  rcases hstep : (r.step code search).run t with ⟨e | progress, t'⟩
  · have hstop := h t
    rw [hstep] at hstop
    refine ⟨1, .inl ?_⟩
    rw [run_steps_succ, hstep]
    exact hstop.resolve_right fun ⟨_, hok, _⟩ => nomatch hok
  · obtain ⟨_, hok, next, rfl, hnext⟩ := (h t).resolve_left (by rw [hstep]; exact id)
    rw [hstep] at hok
    cases hok
    obtain ⟨n, hn⟩ := hnext t'
    refine ⟨n + 1, ?_⟩
    rwa [run_steps_succ, hstep]

/-- Steps that were made can be followed by more. -/
theorem run_steps_add {m n : Nat} {r next : Run} {t t' : Tracker}
    (h : (steps code search m r).run t = (.ok (.running next), t')) :
    (steps code search (m + n) r).run t = (steps code search n next).run t' := by
  induction m generalizing r t with
  | zero =>
    cases h
    rw [Nat.zero_add]
  | succ m ih =>
    rw [Nat.succ_add, run_steps_succ]
    rw [run_steps_succ] at h
    rcases hstep : (r.step code search).run t with ⟨e | progress, t''⟩
    · rw [hstep] at h
      cases h
    · rw [hstep] at h
      cases progress with
      | finished attempt => cases h
      | running later => exact ih h

theorem Reaches.trans {r : Run} (h : r.Reaches code search mid)
    (hmid : ∀ next, mid next → next.Reaches code search post) : r.Reaches code search post := by
  intro t
  obtain ⟨m, hstop | ⟨next, hok, hnext⟩⟩ := h t
  · exact ⟨m, .inl hstop⟩
  · rcases hm : (steps code search m r).run t with ⟨result, t'⟩
    rw [hm] at hok
    cases hok
    obtain ⟨n, hn⟩ := hmid next hnext t'
    refine ⟨m + n, ?_⟩
    rwa [run_steps_add hm]

theorem Reaches.mono {r : Run} (h : r.Reaches code search mid)
    (hpost : ∀ next, mid next → post next) : r.Reaches code search post :=
  h.trans fun next hnext => reaches_self (hpost next hnext)

/-! Steps of the machine. -/

theorem reaches_pop {r : Run} (hbailout : search.bailout = none) {frame : Frame}
    {rest : List Frame} (hframes : r.stack.frames = frame :: rest)
    (h : ∀ stack : Stack, stack.frames = rest →
      ({ r with stack := stack }.follow search frame).Reaches code search post) :
    r.pick.Reaches code search post := by
  apply reaches_of_step
  simp only [step, pick, Stack.pop?, hframes]
  refine ensures_bind (Search.checkpoint_ensures hbailout _ _) fun admitted hadmitted => ?_
  rw [hadmitted, if_pos rfl]
  refine ensures_pure ⟨_, rfl, ?_⟩
  have hfollow : ∀ p : Phase, ({ r with phase := p, stack := { r.stack with frames := rest } } :
      Run).follow search frame =
        ({ r with stack := { r.stack with frames := rest } } : Run).follow search frame := by
    intro p
    cases frame with
    | follow path => rfl
    | accept position slots =>
      unfold follow finish pick
      rfl
  rw [hfollow]
  exact h _ rfl

/-- A search in which no way waits any more has found nothing. -/
theorem reaches_exhausted {r : Run} (hphase : r.phase = .pick) (hframes : r.stack.frames = [])
    (h : post { r with phase := .answer none }) : r.Reaches code search post := by
  apply reaches_of_step
  simp only [step, hphase, Stack.pop?, hframes]
  exact ensures_pure ⟨_, rfl, reaches_self h⟩

/-- A search for a body starts with its one way. -/
theorem reaches_body {r : Run} (hbailout : search.bailout = none) {s : Suspended}
    (h : ∀ stack : Stack, stack.frames = [] →
      (Run.follow ⟨.pick, s.body.goal s.path, stack, s :: r.outer, r.committed⟩ search
        (s.body.way s.path s.tried)).Reaches code search post) :
    Ensures (r.enterBody code.groups s) (·.Reaches code search post) := by
  apply enterBody_ensures
  intro stack hstack
  exact reaches_pop (r := ⟨.pick, s.body.goal s.path, stack, s :: r.outer, r.committed⟩) hbailout
    hstack h

end Run

namespace Run

variable {code : Code} {search : Search}

/-- How a part of a search leaves the run that has made it: with its answer, or with the ways that
wait if it was fruitless. -/
structure Makes (r : Run) (rest : List Frame) (A : Attempt) (next : Run) : Prop where
  goal_eq : next.goal = r.goal
  outer_eq : next.outer = r.outer
  committed_eq : next.committed = (r.committed || (A.committed && !r.goal.isBody))
  fruitless : A = .fruitless → next.phase = .pick ∧ next.stack.frames = rest
  decided : A ≠ .fruitless → next.phase = .answer A.found

/-- The answer of a body stands, and what is around it is as it was. -/
structure Settles (r : Run) (s : Suspended) (found : Option Found) (next : Run) : Prop where
  phase_eq : next.phase = .answer found
  committed_eq : next.committed = r.committed
  outer_eq : ∃ tried, next.outer = { s with tried := tried } :: r.outer ∧
    ¬s.body.GoesBack tried found

/-- Where the machine starts with several ways: it goes on with the first. -/
def first (r : Run) (search : Search) (frames : List Frame) : Run :=
  match frames.head? with
  | none => r.pick
  | some frame => r.follow search frame

/-- The machine makes a part of a search as it ends. -/
def MakesQuest (code : Code) (search : Search) : Quest → Attempt → Prop
  | .way goal frame, A => ∀ r : Run, r.goal = goal →
    (r.follow search frame).Reaches code search (r.Makes r.stack.frames A)
  | .ways goal frames, A => ∀ (r : Run) (rest : List Frame), r.goal = goal →
    r.stack.frames = frames.tail ++ rest →
      (r.first search frames).Reaches code search (r.Makes rest A)
  | .move goal move, A => ∀ r : Run, r.goal = goal →
    Ensures (r.move search code.groups move) (·.Reaches code search (r.Makes r.stack.frames A))
  | .body body path tried, B => ∀ (r : Run) (s : Suspended), s.body = body → s.path = path →
    s.tried = tried →
      Ensures (r.enterBody code.groups s) (·.Reaches code search (r.Settles s B.found))

variable {goal : Goal} {A : Attempt}

/-- Which ways wait in a run does not count for what is made of it. -/
theorem Makes.congr {r r' next : Run} {rest : List Frame} (h : r.Makes rest A next)
    (hgoal : r'.goal = r.goal) (houter : r'.outer = r.outer)
    (hcommitted : r'.committed = r.committed) : r'.Makes rest A next :=
  ⟨h.goal_eq.trans hgoal.symm, h.outer_eq.trans houter.symm,
    by rw [h.committed_eq, hcommitted, hgoal], h.fruitless, h.decided⟩

theorem makes_fruitless (r : Run) : r.Makes r.stack.frames .fruitless r.pick :=
  ⟨rfl, rfl, (Bool.or_false _).symm, fun _ => ⟨rfl, rfl⟩, fun h => absurd rfl h⟩

theorem reaches_finish {position : Nat} {slots : Slots}
    (h : code.Gives search (.move goal (.finish position slots)) A) {r : Run}
    (hgoal : r.goal = goal) :
    (r.finish search position slots).Reaches code search (r.Makes r.stack.frames A) := by
  apply reaches_self
  unfold finish
  cases h with
  | admitted hadmits =>
    rw [if_pos (hgoal ▸ hadmits)]
    exact ⟨rfl, rfl, (Bool.or_false _).symm, fun h => (nomatch h), fun _ => rfl⟩
  | refused hrefuses =>
    rw [if_neg (by rw [hgoal, hrefuses]; exact Bool.false_ne_true)]
    exact r.makes_fruitless

/-- After a way that was fruitless the others are tried. -/
theorem reaches_rest (hbailout : search.bailout = none) {frames rest : List Frame} {r : Run}
    (hframes : r.stack.frames = frames ++ rest) {post : Run → Prop}
    (h : ∀ stack : Stack, stack.frames = frames.tail ++ rest →
      ({ r with stack := stack }.first search frames).Reaches code search post) :
    r.pick.Reaches code search post := by
  cases frames with
  | nil => exact h r.stack hframes
  | cons frame others => exact reaches_pop hbailout hframes h

/-- Where nothing else waits, a search ends with its answer. -/
theorem reaches_answer {r next : Run} (h : r.Makes [] A next) :
    next.Reaches code search fun last => last.phase = .answer A.found ∧ last.goal = r.goal ∧
      last.outer = r.outer ∧ last.committed = (r.committed || (A.committed && !r.goal.isBody)) := by
  by_cases hA : A = .fruitless
  · obtain ⟨hphase, hframes⟩ := h.fruitless hA
    apply reaches_exhausted hphase hframes
    exact ⟨hA ▸ rfl, h.goal_eq, h.outer_eq, h.committed_eq⟩
  · exact reaches_self ⟨h.decided hA, h.goal_eq, h.outer_eq, h.committed_eq⟩

theorem makes_move_go (hbailout : search.bailout = none) {frames : List Frame}
    (ih : MakesQuest code search (.ways goal frames) A) (cut : Bool) {r : Run}
    (hgoal : r.goal = goal) :
    Ensures (r.move search code.groups (.go frames cut))
      (·.Reaches code search
        (Makes { r with committed := r.committed || (cut && !r.goal.isBody) }
          (if cut then [] else r.stack.frames) A)) := by
  have hreset : (if cut then r.stack.reset else r.stack).frames =
      if cut then [] else r.stack.frames := by
    cases cut <;> rfl
  have hfirst (stack : Stack)
      (hstack : stack.frames = frames.tail ++ if cut then [] else r.stack.frames) :
      (first { r with stack := stack, committed := r.committed || (cut && !r.goal.isBody) } search
          frames).Reaches code search
        (Makes { r with committed := r.committed || (cut && !r.goal.isBody) }
          (if cut then [] else r.stack.frames) A) :=
    (ih { r with stack := stack, committed := r.committed || (cut && !r.goal.isBody) } _ hgoal
      hstack).mono fun next hnext => hnext.congr rfl rfl rfl
  unfold move
  dsimp only
  cases frames with
  | nil => exact ensures_pure (hfirst _ hreset)
  | cons frame others =>
    refine ensures_bind (pushAll_ensures hbailout others.reverse _) fun stack hstack => ?_
    rw [List.reverse_reverse, hreset] at hstack
    exact ensures_pure (hfirst stack hstack)

/-- A search that has ruled out the other ways ends with its answer. -/
theorem reaches_cut {r next : Run} {rest : List Frame}
    (h : Makes { r with committed := r.committed || !r.goal.isBody } [] A next) :
    next.Reaches code search (r.Makes rest ⟨A.found, true⟩) := by
  refine (reaches_answer h).mono fun last ⟨hphase, hgoal, houter, hcommitted⟩ => ?_
  refine ⟨hgoal, houter, ?_, fun hA => absurd hA (by simp [Attempt.fruitless]), fun _ => hphase⟩
  rw [hcommitted]
  cases r.committed <;> cases A.committed <;> cases r.goal.isBody <;> rfl

/-- Once the answer of a body stands, the way that has asked for it goes on where it was. -/
theorem Settles.step_eq {r last : Run} {s : Suspended} {found : Option Found} {move : Move}
    (h : r.Settles s found last) (hgoal : s.goal = r.goal) (hstack : s.stack = r.stack)
    (hresume : code.resume search.input s.goal.isBody s.path found = .ok move) :
    last.step code search = .running <$> r.pick.move search code.groups move := by
  obtain ⟨tried, houter, hstays⟩ := h.outer_eq
  have hback : (found.isNone && s.body.behind && decide (0 < tried)) = false := by
    simpa [Body.GoesBack, and_assoc] using hstays
  have haround : { last with phase := .pick, goal := s.goal, stack := s.stack, outer := r.outer } =
      r.pick := by
    rw [pick, hgoal, hstack, h.committed_eq]
  simp only [step, h.phase_eq, houter, leave, hback, hresume, haround]
  rfl

/-- A lookbehind that has failed is tried one character further back. -/
theorem step_eq_of_goesBack {last : Run} {s : Suspended} {outer : List Suspended}
    {found : Option Found} (hphase : last.phase = .answer found) (houter : last.outer = s :: outer)
    (hback : s.body.GoesBack s.tried found) :
    last.step code search = .running <$>
      Run.enterBody ⟨.pick, s.goal, s.stack, outer, last.committed⟩ code.groups
        { s with tried := s.tried - 1 } := by
  obtain ⟨rfl, hbehind, hpositive⟩ := hback
  simp [step, hphase, houter, leave, hbehind, hpositive]

/-- The search for a body that is tried once comes to its answer. -/
theorem reaches_tried (hbailout : search.bailout = none) {body : Body} {path : Path} {tried : Nat}
    (ih : MakesQuest code search (.way (body.goal path) (body.way path tried)) A) {r : Run}
    {s : Suspended} (hbody : s.body = body) (hpath : s.path = path) (htried : s.tried = tried) :
    Ensures (r.enterBody code.groups s) (·.Reaches code search fun last =>
      last.phase = .answer A.found ∧ last.outer = s :: r.outer ∧ last.committed = r.committed) := by
  subst hbody hpath htried
  apply reaches_body hbailout
  intro stack hstack
  have hmade := ih ⟨.pick, s.body.goal s.path, stack, s :: r.outer, r.committed⟩ rfl
  refine hmade.trans fun next hnext => ?_
  rw [hstack] at hnext
  refine (reaches_answer hnext).mono fun last ⟨hphase, _, houter, hcommitted⟩ => ?_
  refine ⟨hphase, houter, ?_⟩
  rw [hcommitted]
  simp [Body.goal, Goal.isBody]

/-- Every part of a search is made as it ends. -/
theorem makesQuest (hbailout : search.bailout = none) {quest : Quest} (h : code.Gives search quest A) :
    MakesQuest code search quest A := by
  induction h with
  | nothing =>
    intro r rest _ hframes
    have hrest : r.stack.frames = rest := hframes
    exact hrest ▸ reaches_self r.makes_fruitless
  | decided _ hdecides ih =>
    intro r rest hgoal _
    refine (ih r hgoal).mono fun next hnext => ?_
    exact ⟨hnext.goal_eq, hnext.outer_eq, hnext.committed_eq, fun hA => absurd hA hdecides,
      hnext.decided⟩
  | passed _ _ ihway ihrest =>
    intro r rest hgoal hframes
    refine (ihway r hgoal).trans fun next hnext => ?_
    obtain ⟨hphase, hwaiting⟩ := hnext.fruitless rfl
    have hpick : next.pick = next := by rw [pick, ← hphase]
    rw [← hpick]
    apply reaches_rest hbailout (hwaiting.trans hframes)
    intro stack hstack
    refine (ihrest { next with stack := stack } rest (hnext.goal_eq.trans hgoal) hstack).mono
      fun last hlast => hlast.congr hnext.goal_eq.symm hnext.outer_eq.symm ?_
    rw [hnext.committed_eq]
    exact (Bool.or_false _).symm
  | accept hmove _ => exact fun r hgoal => reaches_finish hmove hgoal
  | repeated hseen =>
    intro r _
    apply reaches_of_step
    simp only [follow, step, enter, if_pos (List.contains_iff_mem.mpr hseen)]
    exact ensures_map (ensures_pure ⟨_, rfl, reaches_self r.makes_fruitless⟩)
  | @entered goal path move A hnew henter _ ih =>
    rintro r rfl
    apply reaches_of_step
    simp only [follow, step, enter]
    rw [if_neg (by simpa using hnew)]
    refine ensures_map (ensures_bind (Search.checkpoint_ensures hbailout _ _)
      fun admitted hadmitted => ?_)
    simp only [Path.entered] at henter
    rw [hadmitted, if_pos rfl]
    simp only [henter]
    refine ensures_mono (ih { r with phase := .enter path } rfl) fun next hnext => ?_
    exact ⟨next, rfl, hnext.mono fun last hlast => hlast.congr rfl rfl rfl⟩
  | admitted hadmits => exact fun r hgoal => ensures_pure (reaches_finish (.admitted hadmits) hgoal)
  | refused hrefuses => exact fun r hgoal => ensures_pure (reaches_finish (.refused hrefuses) hgoal)
  | go _ ih =>
    intro r hgoal
    refine ensures_mono (makes_move_go hbailout ih false hgoal) fun next hnext => ?_
    exact hnext.mono fun last hlast => hlast.congr rfl rfl (Bool.or_false _).symm
  | cut _ ih =>
    intro r hgoal
    refine ensures_mono (makes_move_go hbailout ih true hgoal) fun next hnext => ?_
    exact hnext.trans fun last hlast => reaches_cut hlast
  | @ask goal body path B move A _ hresume _ ihbody ihmove =>
    intro r hgoal
    have hbody := ihbody r ⟨path, body, r.goal, r.stack, path.position⟩ rfl rfl rfl
    refine ensures_mono hbody fun next hnext => hnext.trans fun last hlast => ?_
    apply reaches_of_step
    rw [hlast.step_eq rfl rfl (hgoal ▸ hresume)]
    apply ensures_map
    refine ensures_mono (ihmove r.pick hgoal) fun next hnext => ?_
    exact ⟨next, rfl, hnext.mono fun last hlast => hlast.congr rfl rfl rfl⟩
  | answered _ hstays ih =>
    intro r s hbody hpath htried
    refine ensures_mono (reaches_tried hbailout ih hbody hpath htried) fun next hnext =>
      hnext.mono fun last hlast => ?_
    obtain ⟨hphase, houter, hcommitted⟩ := hlast
    exact ⟨hphase, hcommitted, s.tried, houter, hbody ▸ htried ▸ hstays⟩
  | back _ hback _ ihway ihback =>
    intro r s hbody hpath htried
    refine ensures_mono (reaches_tried hbailout ihway hbody hpath htried) fun next hnext =>
      hnext.trans fun last hlast => ?_
    obtain ⟨hphase, houter, hcommitted⟩ := hlast
    apply reaches_of_step
    subst hbody hpath htried
    rw [step_eq_of_goesBack hphase houter hback]
    apply ensures_map
    refine ensures_mono (ihback ⟨.pick, s.goal, s.stack, r.outer, last.committed⟩
      { s with tried := s.tried - 1 } rfl rfl rfl) fun next hnext => ⟨next, rfl, ?_⟩
    refine hnext.mono fun final hfinal => ?_
    exact ⟨hfinal.phase_eq, hfinal.committed_eq.trans hcommitted, hfinal.outer_eq⟩

/-- A way that enters a place which asks for a body goes on as the answer of the body says. -/
theorem reaches_asked (hbailout : search.bailout = none) {r : Run} {path : Path} {body : Body}
    {B : Attempt} {move : Move} (hphase : r.phase = .enter path) (hnew : path.place ∉ path.trail)
    (henter : code.enter search.input r.goal.isBody path.entered = .ok (.ask body path.entered))
    (hbody : code.Gives search (.body body path.entered path.position) B)
    (hresume : code.resume search.input r.goal.isBody path.entered B.found = .ok move) :
    r.Reaches code search fun next =>
      next.step code search = .running <$> r.pick.move search code.groups move := by
  apply reaches_of_step
  simp only [step, hphase, enter]
  rw [if_neg (by simpa using hnew)]
  refine ensures_map (ensures_bind (Search.checkpoint_ensures hbailout _ _)
    fun admitted hadmitted => ?_)
  simp only [Path.entered] at henter
  rw [hadmitted, if_pos rfl]
  simp only [henter]
  have hmade := makesQuest hbailout hbody r
    ⟨path.entered, body, r.goal, r.stack, path.position⟩ rfl rfl rfl
  refine ensures_mono hmade fun next hnext => ⟨next, rfl, ?_⟩
  exact hnext.mono fun last hlast => hlast.step_eq rfl rfl hresume

end Run

/-! What a search enters. -/

/-- Any number of steps is stopped at a bound, or leaves the run on its paths. -/
theorem Run.steps_keeps {code : Code} {search : Search} {P : Path → Prop}
    (hclosed : code.ClosedOn P) (n : Nat) {r : Run} (hr : r.Within P) :
    Ensures (steps code search n r) (·.Within P) := by
  induction n generalizing r with
  | zero => exact ensures_pure hr
  | succ n ih =>
    unfold steps
    refine ensures_bind (step_keeps hclosed hr) fun progress hprogress => ?_
    cases progress with
    | finished attempt => exact ensures_pure trivial
    | running next => exact ih hprogress

namespace Code

/-- A search that starts at a place of the code comes to enter the place of a path, after some steps.
-/
def Enters (code : Code) (search : Search) (initial start : Nat) (path : Path) : Prop :=
  ∃ (maxDepth n : Nat) (stack : Stack) (t t' : Tracker) (r : Run),
    (Stack.new maxDepth code.groups).push (.follow (.start initial start (.unset code.groups))) =
      .ok stack ∧
    (Run.steps code search n (.start stack)).run t = (.ok (.running r), t') ∧ r.phase = .enter path

/-- A search enters no path but those that its code keeps to. -/
theorem ClosedOn.of_enters {code : Code} {search : Search} {P : Path → Prop}
    {initial start : Nat} (hclosed : code.ClosedOn P)
    (hinitial : P (.start initial start (.unset code.groups))) {path : Path}
    (h : code.Enters search initial start path) : P path := by
  obtain ⟨maxDepth, n, stack, t, t', r, hpush, hrun, hphase⟩ := h
  have hwithin := (Run.steps_keeps hclosed n (within_start hinitial hpush)).grants t t' _ hrun
  exact hwithin.entering path hphase

end Code

end RegexEngine
