import Mathlib.Data.List.Forall2
import RegexEngine.Proofs.Search.Outcomes
import RegexEngine.Proofs.Search.Tracked

/-!
Codes that search alike at no greater cost. A code shadows another if it answers each of its moves
with a move of the same form, except that it may stay where it is while the other one only goes on.
Then a run of the one makes every step that a run of the other makes, or waits. It never uses up
more than the other one does, so what is found within some bounds is found within the same ones.

The two runs are at different totals of transitions when they look at the clock. But the clock is
never read at a total that the first one has not passed before it, and has passed in time.
-/

namespace RegexEngine

/-- Since some total was reached, the second of two searches within the same bounds has used up no
more than the first, and the first has seen no deadline pass. -/
structure Tracker.Spares (clock : Clock) (origin : Nat) (t t' : Tracker) : Prop where
  limits_eq : t'.limits = t.limits
  deadline_eq : t'.deadline = t.deadline
  transitions_le : t'.transitions ≤ t.transitions
  origin_le : origin ≤ t'.total
  total_le : t'.total ≤ t.total
  inTime : ∀ total, origin < total → total ≤ t.total → t.deadline.any (· ≤ clock total) = false

theorem Tracker.Spares.refl (clock : Clock) (t : Tracker) : Tracker.Spares clock t.total t t := by
  refine ⟨rfl, rfl, Nat.le_refl _, Nat.le_refl _, Nat.le_refl _, ?_⟩
  intro total hlt hle
  omega

namespace Tracked

variable {α β γ δ : Type} {clock : Clock}

/-- Whenever the first computation answers, the second one answers too, with what `post` relates,
and uses up no more. -/
def Repeats (clock : Clock) (x : Tracked α) (y : Tracked β) (post : α → β → Prop) : Prop :=
  ∀ (origin : Nat) (t t' s : Tracker) (v : α), t.Spares clock origin t' → x.run t = (.ok v, s) →
    ∃ w s', y.run t' = (.ok w, s') ∧ post v w ∧ s.Spares clock origin s'

theorem repeats_pure {post : α → β → Prop} {v : α} {w : β} (h : post v w) :
    Repeats clock (pure v) (pure w) post := by
  intro origin t t' s v' hspares hrun
  cases hrun
  exact ⟨w, t', rfl, h, hspares⟩

theorem repeats_throw {post : α → β → Prop} (e : Error) (y : Tracked β) :
    Repeats clock (throw e) y post := by
  intro origin t t' s v hspares hrun
  cases hrun

theorem repeats_bind {x : Tracked α} {y : Tracked β} {f : α → Tracked γ} {g : β → Tracked δ}
    {mid : α → β → Prop} {post : γ → δ → Prop} (h : Repeats clock x y mid)
    (hf : ∀ v w, mid v w → Repeats clock (f v) (g w) post) :
    Repeats clock (x >>= f) (y >>= g) post := by
  intro origin t t' s v hspares hrun
  rw [run_bind] at hrun
  rcases hfirst : x.run t with ⟨e | value, s₁⟩
  · rw [hfirst] at hrun
    cases hrun
  · rw [hfirst] at hrun
    obtain ⟨w, s₁', hsecond, hmid, hspares₁⟩ := h origin t t' s₁ value hspares hfirst
    obtain ⟨w', s', hrest, hpost, hspares'⟩ := hf value w hmid origin s₁ s₁' s v hspares₁ hrun
    refine ⟨w', s', ?_, hpost, hspares'⟩
    rw [run_bind, hsecond]
    exact hrest

theorem repeats_mono {x : Tracked α} {y : Tracked β} {mid post : α → β → Prop}
    (hx : Repeats clock x y mid) (h : ∀ v w, mid v w → post v w) : Repeats clock x y post := by
  intro origin t t' s v hspares hrun
  obtain ⟨w, s', hrun', hmid, hspares'⟩ := hx origin t t' s v hspares hrun
  exact ⟨w, s', hrun', h v w hmid, hspares'⟩

theorem repeats_map {x : Tracked α} {y : Tracked β} {f : α → γ} {g : β → δ} {post : γ → δ → Prop}
    (hx : Repeats clock x y fun v w => post (f v) (g w)) :
    Repeats clock (f <$> x) (g <$> y) post := by
  rw [map_eq_pure_bind, map_eq_pure_bind]
  exact repeats_bind hx fun _ _ h => repeats_pure h

theorem repeats_map_left {x : Tracked α} {y : Tracked β} {f : α → γ} {post : γ → β → Prop}
    (hx : Repeats clock x y fun v w => post (f v) w) : Repeats clock (f <$> x) y post := by
  rw [map_eq_pure_bind, ← bind_pure y]
  exact repeats_bind hx fun _ _ h => repeats_pure h

/-- What is done first by the one alone must leave the other where it is. -/
theorem repeats_bind_left {x : Tracked α} {y : Tracked δ} {f : α → Tracked γ} {mid : α → Prop}
    {post : γ → δ → Prop} (h : Repeats clock x (pure ()) fun v _ => mid v)
    (hf : ∀ v, mid v → Repeats clock (f v) y post) : Repeats clock (x >>= f) y post := by
  have hunit : (pure () >>= fun _ : Unit => y) = y := pure_bind _ _
  rw [← hunit]
  exact repeats_bind h fun v _ hmid => hf v hmid

/-- Both read the same bounds. -/
theorem repeats_get_bind {f : Tracker → Tracked α} {g : Tracker → Tracked β} {post : α → β → Prop}
    (h : ∀ t t', t'.limits = t.limits → Repeats clock (f t) (g t') post) :
    Repeats clock (getThe Tracker >>= f) (getThe Tracker >>= g) post :=
  fun origin t t' s v hspares hrun => h t t' hspares.limits_eq origin t t' s v hspares hrun

end Tracked

open Tracked

/-! Checkpoints. -/

namespace Tracker

variable {clock : Clock}

/-- A checkpoint that is passed was passed in time. -/
theorem of_run_checkpoint {depth : Nat} {t s : Tracker}
    (h : (Tracker.checkpoint clock depth).run t = (.ok (), s)) :
    (0 < t.limits.maxTransitions && t.limits.maxTransitions < t.transitions + 1) = false ∧
      t.deadline.any (· ≤ clock (t.total + 1)) = false ∧ s = t.count depth := by
  rw [run_checkpoint] at h
  split at h
  · cases h
  · rename_i hcount
    split at h
    · cases h
    · rename_i hclock
      cases h
      exact ⟨by simpa using hcount, by simpa using hclock, rfl⟩

/-- A checkpoint costs the second search nothing, if it makes none. -/
theorem checkpoint_repeats_pure (depth : Nat) :
    Repeats clock (Tracker.checkpoint clock depth) (pure ()) fun _ _ => True := by
  intro origin t t' s _ hspares hrun
  obtain ⟨_, hclock, rfl⟩ := of_run_checkpoint hrun
  have htransitions := hspares.transitions_le
  have htotal := hspares.total_le
  refine ⟨(), t', rfl, trivial, hspares.limits_eq, hspares.deadline_eq, ?_, hspares.origin_le, ?_,
    fun total hlt hle => ?_⟩
  · simp only [count]
    omega
  · simp only [count]
    omega
  · rcases Nat.lt_or_ge t.total total with hlast | hbefore
    · have heq : total = t.total + 1 := by
        simp only [count] at hle
        omega
      exact heq ▸ hclock
    · exact hspares.inTime total hlt hbefore

/-- Where the first search passes a checkpoint, the second one does. -/
theorem checkpoint_repeats (depth depth' : Nat) :
    Repeats clock (Tracker.checkpoint clock depth) (Tracker.checkpoint clock depth')
      fun _ _ => True := by
  intro origin t t' s v hspares hrun
  obtain ⟨_, _, _, _, hspared⟩ := checkpoint_repeats_pure depth origin t t' s v hspares hrun
  obtain ⟨hcount, hclock, rfl⟩ := of_run_checkpoint hrun
  have horigin := hspares.origin_le
  have htransitions := hspares.transitions_le
  have htotal := hspares.total_le
  have hcount' : (0 < t'.limits.maxTransitions &&
      t'.limits.maxTransitions < t'.transitions + 1) = false := by
    rw [hspares.limits_eq]
    simp only [Bool.and_eq_false_iff, decide_eq_false_iff_not] at hcount ⊢
    omega
  have hclock' : t'.deadline.any (· ≤ clock (t'.total + 1)) = false := by
    rw [hspares.deadline_eq]
    apply hspared.inTime
    · omega
    · simp only [count]
      omega
  refine ⟨(), t'.count depth', ?_, trivial, hspares.limits_eq, hspares.deadline_eq, ?_, ?_, ?_,
    hspared.inTime⟩
  · rw [run_checkpoint, hcount', hclock']
    rfl
  · exact Nat.succ_le_succ htransitions
  · exact Nat.le_succ_of_le horigin
  · exact Nat.succ_le_succ htotal

theorem checkPush_repeats (depth : Nat) :
    Repeats clock (Tracker.checkPush depth) (Tracker.checkPush depth) fun _ _ => True := by
  unfold Tracker.checkPush
  intro origin t t' s v hspares hrun
  change (if t.limits.maxDepth ≤ depth then _ else _ : Tracked Unit).run t = _ at hrun
  split at hrun
  · cases hrun
  · rename_i hroom
    cases hrun
    refine ⟨(), { t' with peakDepth := max t'.peakDepth (depth + 1) }, ?_, trivial, ?_⟩
    · change (if t'.limits.maxDepth ≤ depth then _ else _ : Tracked Unit).run t' = _
      rw [hspares.limits_eq, if_neg hroom]
      rfl
    · exact ⟨hspares.limits_eq, hspares.deadline_eq, hspares.transitions_le, hspares.origin_le,
        hspares.total_le, hspares.inTime⟩

end Tracker

namespace Search

variable {search : Search}

theorem checkpoint_repeats (hbailout : search.bailout = none) (depth depth' position position' : Nat) :
    Repeats search.clock (search.checkpoint depth position) (search.checkpoint depth' position')
      fun v w => v = true ∧ w = true := by
  unfold checkpoint
  rw [hbailout]
  exact repeats_bind (Tracker.checkpoint_repeats depth depth') fun _ _ _ => repeats_pure ⟨rfl, rfl⟩

theorem checkpoint_repeats_pure (hbailout : search.bailout = none) (depth position : Nat) :
    Repeats search.clock (search.checkpoint depth position) (pure ()) fun v _ => v = true := by
  unfold checkpoint
  rw [hbailout]
  apply repeats_bind_left (Tracker.checkpoint_repeats_pure depth)
  exact fun _ _ => repeats_pure rfl

theorem checkPush_repeats (hbailout : search.bailout = none) (depth position position' : Nat) :
    Repeats search.clock (search.checkPush depth position) (search.checkPush depth position')
      fun v w => v = true ∧ w = true := by
  unfold checkPush
  exact repeats_bind (Tracker.checkPush_repeats depth) fun _ _ _ =>
    checkpoint_repeats hbailout _ _ _ _

end Search

/-! Shadows. -/

section Shadow

variable (Near At : Path → Path → Prop)

/-- A waiting way of one run and that of the other. `Near` relates ways that are about to enter a
place. -/
inductive Frame.Shadow : Frame → Frame → Prop
  | follow {path path' : Path} : Near path path' → Shadow (.follow path) (.follow path')
  | accept (position : Nat) (slots : Slots) : Shadow (.accept position slots) (.accept position slots)

/-- Two bodies are tried from the same places on. -/
structure Body.Shadow (body body' : Body) : Prop where
  behind_eq : body'.behind = body.behind
  start : ∀ tried slots, Near (.start body.start tried slots) (.start body'.start tried slots)

/-- What one code does and what the other does. `At` relates ways that wait for a body. -/
inductive Move.Shadow : Move → Move → Prop
  | finish (position : Nat) (slots : Slots) : Shadow (.finish position slots) (.finish position slots)
  | go {ways ways' : List Frame} (cut : Bool) : List.Forall₂ (Frame.Shadow Near) ways ways' →
      Shadow (.go ways cut) (.go ways' cut)
  | ask {body body' : Body} {path path' : Path} : Body.Shadow Near body body' → At path path' →
      Shadow (.ask body path) (.ask body' path')

theorem Move.Shadow.dead : Move.Shadow Near At .dead .dead := .go false .nil

variable {Near} in
theorem Move.Shadow.along {path path' : Path} (h : Near path path') :
    Move.Shadow Near At (.along path) (.along path') :=
  .go false (.cons (.follow h) .nil)

/-- A code does what another does, but may stay where it is while the other one goes on. -/
structure Code.Shadows (code code' : Code) : Prop where
  groups_eq : code'.groups = code.groups
  near : ∀ {path path'}, Near path path' → path'.position = path.position
  at_ : ∀ {path path'}, At path path' →
    path'.position = path.position ∧ path'.slots = path.slots
  repeated : ∀ {path path'}, Near path path' → path.place ∈ path.trail → path'.place ∈ path'.trail
  enter : ∀ (input : Array Char) (inBody : Bool) {path path' : Path} {move : Move},
    Near path path' → path.place ∉ path.trail →
      code.enter input inBody path.entered = .ok move →
        (∃ next, move = .along next ∧ Near next path') ∨
          path'.place ∉ path'.trail ∧ ∃ move', code'.enter input inBody path'.entered = .ok move' ∧
            Move.Shadow Near At move move'
  resume : ∀ (input : Array Char) (inBody : Bool) {path path' : Path} (found : Option Found)
    {move : Move}, At path path' → code.resume input inBody path found = .ok move →
      ∃ move', code'.resume input inBody path' found = .ok move' ∧ Move.Shadow Near At move move'

end Shadow

variable {Near At : Path → Path → Prop}

/-- The waiting ways of one search and those of the other. -/
structure Stack.Shadow (Near : Path → Path → Prop) (stack stack' : Stack) : Prop where
  frames : List.Forall₂ (Frame.Shadow Near) stack.frames stack'.frames
  maxDepth_eq : stack'.maxDepth = stack.maxDepth
  groups_eq : stack'.groups = stack.groups
  base_eq : stack'.base = stack.base

/-- A search that waits for the answer of a body, and its shadow. -/
structure Suspended.Shadow (Near At : Path → Path → Prop) (s s' : Suspended) : Prop where
  path : At s.path s'.path
  body : Body.Shadow Near s.body s'.body
  goal_eq : s'.goal = s.goal
  stack : Stack.Shadow Near s.stack s'.stack
  tried_eq : s'.tried = s.tried

/-- What two runs do next. -/
inductive Phase.Shadow (Near : Path → Path → Prop) : Phase → Phase → Prop
  | pick : Shadow Near .pick .pick
  | enter {path path' : Path} : Near path path' → Shadow Near (.enter path) (.enter path')
  | answer (found : Option Found) : Shadow Near (.answer found) (.answer found)

/-- A run and its shadow. -/
structure Run.Shadow (Near At : Path → Path → Prop) (r r' : Run) : Prop where
  phase : Phase.Shadow Near r.phase r'.phase
  goal_eq : r'.goal = r.goal
  stack : Stack.Shadow Near r.stack r'.stack
  outer : List.Forall₂ (Suspended.Shadow Near At) r.outer r'.outer
  committed_eq : r'.committed = r.committed

/-- Where a step leads, and where that of the shadow leads. -/
inductive Progress.Shadow (Near At : Path → Path → Prop) : Progress → Progress → Prop
  | running {r r' : Run} : r.Shadow Near At r' → Shadow Near At (.running r) (.running r')
  | finished (attempt : Attempt) : Shadow Near At (.finished attempt) (.finished attempt)

theorem Frame.Shadow.position_eq {code code' : Code} (hcode : code.Shadows Near At code')
    {frame frame' : Frame} (h : Frame.Shadow Near frame frame') :
    frame'.position = frame.position := by
  cases h with
  | follow hnear => exact hcode.near hnear
  | accept position slots => rfl

theorem Stack.Shadow.depth_eq {stack stack' : Stack} (h : Stack.Shadow Near stack stack') :
    stack'.depth = stack.depth := by
  rw [Stack.depth, Stack.depth, h.base_eq, h.frames.length_eq]

theorem Stack.Shadow.push {stack stack' pushed : Stack} {frame frame' : Frame}
    (h : Stack.Shadow Near stack stack') (hframe : Frame.Shadow Near frame frame')
    (hpush : stack.push frame = .ok pushed) :
    ∃ pushed', stack'.push frame' = .ok pushed' ∧ Stack.Shadow Near pushed pushed' := by
  unfold Stack.push at hpush ⊢
  split at hpush
  · cases hpush
  · rename_i hroom
    cases hpush
    have hroom' : ¬ stack'.maxDepth ≤ stack'.depth := by rwa [h.depth_eq, h.maxDepth_eq]
    rw [if_neg hroom']
    exact ⟨_, rfl, .cons hframe h.frames, h.maxDepth_eq, h.groups_eq, h.base_eq⟩

theorem Stack.Shadow.nested (maxDepth groups base : Nat) :
    Stack.Shadow Near (.nested maxDepth groups base) (.nested maxDepth groups base) :=
  ⟨.nil, rfl, rfl, rfl⟩

theorem Stack.Shadow.reset {stack stack' : Stack} (h : Stack.Shadow Near stack stack') :
    Stack.Shadow Near stack.reset stack'.reset :=
  ⟨.nil, h.maxDepth_eq, h.groups_eq, h.base_eq⟩

namespace Run

variable {code code' : Code} {search : Search} {r r' : Run}

theorem Shadow.pick (h : r.Shadow Near At r') : r.pick.Shadow Near At r'.pick :=
  ⟨.pick, h.goal_eq, h.stack, h.outer, h.committed_eq⟩

theorem Shadow.withStack (h : r.Shadow Near At r') {stack stack' : Stack}
    (hstack : Stack.Shadow Near stack stack') :
    Shadow Near At { r with stack := stack } { r' with stack := stack' } :=
  ⟨h.phase, h.goal_eq, hstack, h.outer, h.committed_eq⟩

theorem Shadow.finish (h : r.Shadow Near At r') (position : Nat) (slots : Slots) :
    (r.finish search position slots).Shadow Near At (r'.finish search position slots) := by
  have hgoal := h.goal_eq
  unfold Run.finish Run.pick
  rw [hgoal]
  split
  · exact ⟨.answer _, rfl, h.stack, h.outer, h.committed_eq⟩
  · exact ⟨.pick, rfl, h.stack, h.outer, h.committed_eq⟩

theorem Shadow.follow (h : r.Shadow Near At r') {frame frame' : Frame}
    (hframe : Frame.Shadow Near frame frame') :
    (r.follow search frame).Shadow Near At (r'.follow search frame') := by
  cases hframe with
  | follow hnear => exact ⟨.enter hnear, h.goal_eq, h.stack, h.outer, h.committed_eq⟩
  | accept position slots => exact h.finish position slots

theorem pushAll_repeats (hbailout : search.bailout = none)
    {ways ways' : List Frame} (hways : List.Forall₂ (Frame.Shadow Near) ways ways')
    {stack stack' : Stack} (h : Stack.Shadow Near stack stack') :
    Repeats search.clock (pushAll search stack ways) (pushAll search stack' ways')
      (Stack.Shadow Near) := by
  induction hways generalizing stack stack' with
  | nil => exact repeats_pure h
  | @cons frame frame' rest rest' hframe hrest ih =>
    unfold pushAll
    rw [h.depth_eq]
    apply repeats_bind (Search.checkPush_repeats hbailout _ _ _)
    rintro v w ⟨rfl, rfl⟩
    rw [if_pos rfl, if_pos rfl]
    have hpushed : Repeats search.clock (pushAll.liftExcept (stack.push frame))
        (pushAll.liftExcept (stack'.push frame')) (Stack.Shadow Near) := by
      cases hpush : stack.push frame with
      | error e => exact repeats_throw e _
      | ok pushed =>
        obtain ⟨pushed', hpush', hshadow⟩ := h.push hframe hpush
        rw [hpush']
        exact repeats_pure hshadow
    exact repeats_bind hpushed fun _ _ hshadow => ih hshadow

theorem enterBody_repeats {groups : Nat} {clock : Clock} (h : r.Shadow Near At r')
    {s s' : Suspended} (hs : Suspended.Shadow Near At s s')
    (hslots : s'.path.position = s.path.position ∧ s'.path.slots = s.path.slots) :
    Repeats clock (r.enterBody groups s) (r'.enterBody groups s') (Shadow Near At) := by
  unfold enterBody
  apply repeats_get_bind
  intro t t' hlimits
  dsimp only
  rw [hlimits, hs.stack.depth_eq, hs.tried_eq, hslots.2, hslots.1, hs.body.behind_eq]
  have hempty : Stack.Shadow Near (.nested t.limits.maxDepth groups s.stack.depth)
      (.nested t.limits.maxDepth groups s.stack.depth) := .nested _ _ _
  have hstart := Frame.Shadow.follow (hs.body.start s.tried s.path.slots)
  cases hpush : (Stack.nested t.limits.maxDepth groups s.stack.depth).push
      (.follow (.start s.body.start s.tried s.path.slots)) with
  | error e => exact repeats_throw e _
  | ok stack =>
    obtain ⟨stack', hpush', hstack⟩ := hempty.push hstart hpush
    rw [hpush']
    exact repeats_pure ⟨.pick, rfl, hstack, .cons hs h.outer, h.committed_eq⟩

theorem move_repeats (hcode : code.Shadows Near At code') (hbailout : search.bailout = none)
    (h : r.Shadow Near At r') {groups : Nat} {move move' : Move}
    (hmove : Move.Shadow Near At move move') :
    Repeats search.clock (r.move search groups move) (r'.move search groups move')
      (Shadow Near At) := by
  cases hmove with
  | finish position slots => exact repeats_pure (h.finish position slots)
  | @ask body body' path path' hbody hpath =>
    have heq := hcode.at_ hpath
    apply enterBody_repeats h _ heq
    exact ⟨hpath, hbody, h.goal_eq, h.stack, heq.1⟩
  | @go ways ways' cut hways =>
    unfold Run.move
    dsimp only
    have hstack : Stack.Shadow Near (if cut then r.stack.reset else r.stack)
        (if cut then r'.stack.reset else r'.stack) := by
      cases cut with
      | false => exact h.stack
      | true => exact h.stack.reset
    have hmarked : Shadow Near At
        { r with
          stack := if cut then r.stack.reset else r.stack
          committed := r.committed || (cut && !r.goal.isBody) }
        { r' with
          stack := if cut then r'.stack.reset else r'.stack
          committed := r'.committed || (cut && !r'.goal.isBody) } := by
      refine ⟨h.phase, h.goal_eq, hstack, h.outer, ?_⟩
      rw [h.committed_eq, h.goal_eq]
    cases hways with
    | nil => exact repeats_pure hmarked.pick
    | cons hfirst hothers =>
      apply repeats_bind (pushAll_repeats hbailout (List.rel_reverse hothers) hstack)
      intro stack stack' hpushed
      exact repeats_pure ((hmarked.withStack hpushed).follow hfirst)

theorem leave_repeats (hcode : code.Shadows Near At code') (hbailout : search.bailout = none)
    (h : r.Shadow Near At r') {s s' : Suspended} (hs : Suspended.Shadow Near At s s')
    {outer outer' : List Suspended} (houter : List.Forall₂ (Suspended.Shadow Near At) outer outer')
    (found : Option Found) :
    Repeats search.clock (r.leave code search s outer found)
      (r'.leave code' search s' outer' found) (Shadow Near At) := by
  unfold leave
  dsimp only
  have haround : Shadow Near At
      { r with phase := .pick, goal := s.goal, stack := s.stack, outer := outer }
      { r' with phase := .pick, goal := s'.goal, stack := s'.stack, outer := outer' } :=
    ⟨.pick, hs.goal_eq, hs.stack, houter, h.committed_eq⟩
  rw [hs.body.behind_eq, hs.tried_eq, hcode.groups_eq]
  split
  · have hback : Suspended.Shadow Near At { s with tried := s.tried - 1 }
        { s' with tried := s.tried - 1 } :=
      ⟨hs.path, hs.body, hs.goal_eq, hs.stack, rfl⟩
    exact enterBody_repeats haround hback (hcode.at_ hs.path)
  · cases hresume : code.resume search.input s.goal.isBody s.path found with
    | error e => exact repeats_throw e _
    | ok move =>
      obtain ⟨move', hresume', hmove⟩ := hcode.resume search.input s.goal.isBody found hs.path hresume
      rw [hs.goal_eq, hresume']
      rw [hs.goal_eq] at haround
      exact move_repeats hcode hbailout haround hmove

/-- The shadow makes a step with the run, or stays where it is while the run goes on. -/
def StepsWith (code code' : Code) (search : Search) (Near At : Path → Path → Prop) (r r' : Run) :
    Prop :=
  Repeats search.clock (r.step code search) (r'.step code' search) (Progress.Shadow Near At) ∨
    Repeats search.clock (r.step code search) (pure ()) fun progress _ =>
      ∃ next, progress = .running next ∧ next.Shadow Near At r'

theorem enter_eq_move {path : Path} {move : Move} (hnew : path.place ∉ path.trail)
    (hmove : code.enter search.input r.goal.isBody path.entered = .ok move) :
    r.enter code search path = search.checkpoint r.stack.depth path.position >>= fun admitted =>
      if admitted then r.move search code.groups move else pure r.pick := by
  have hcontains : path.trail.contains path.place = false := by simpa using hnew
  simp only [Path.entered] at hmove
  unfold enter
  simp only [hcontains, hmove, Bool.false_eq_true, if_false]

theorem enter_eq_throw {path : Path} {e : Error} (hnew : path.place ∉ path.trail)
    (herror : code.enter search.input r.goal.isBody path.entered = .error e) :
    r.enter code search path = search.checkpoint r.stack.depth path.position >>= fun admitted =>
      if admitted then throw e else pure r.pick := by
  have hcontains : path.trail.contains path.place = false := by simpa using hnew
  simp only [Path.entered] at herror
  unfold enter
  simp only [hcontains, herror, Bool.false_eq_true, if_false]

/-- To go on with one way changes nothing else. -/
theorem move_along (path : Path) (groups : Nat) :
    r.move search groups (.along path) = pure { r with phase := .enter path } := by
  simp [Move.along, move, pushAll, follow]

theorem enter_stepsWith (hcode : code.Shadows Near At code') (hbailout : search.bailout = none)
    (h : r.Shadow Near At r') {path path' : Path} (hnear : Near path path')
    (hphase : r.phase = .enter path) (hphase' : r'.phase = .enter path') :
    StepsWith code code' search Near At r r' := by
  have hstep : r.step code search = .running <$> r.enter code search path := by
    rw [step, hphase]
  have hstep' : r'.step code' search = .running <$> r'.enter code' search path' := by
    rw [step, hphase']
  unfold StepsWith
  rw [hstep, hstep']
  by_cases hseen : path.place ∈ path.trail
  · left
    have hseen' := hcode.repeated hnear hseen
    unfold enter
    rw [if_pos (List.contains_iff_mem.mpr hseen), if_pos (List.contains_iff_mem.mpr hseen')]
    exact repeats_map (repeats_pure (.running h.pick))
  · cases hmove : code.enter search.input r.goal.isBody path.entered with
    | error e =>
      right
      rw [enter_eq_throw hseen hmove]
      apply repeats_map_left
      apply repeats_bind_left (Search.checkpoint_repeats_pure hbailout _ _)
      rintro v rfl
      rw [if_pos rfl]
      exact repeats_throw e _
    | ok move =>
      rcases hcode.enter search.input r.goal.isBody hnear hseen hmove with
        ⟨next, rfl, hnext⟩ | ⟨hseen', move', hmove', hshadow⟩
      · right
        rw [enter_eq_move hseen hmove]
        apply repeats_map_left
        apply repeats_bind_left (Search.checkpoint_repeats_pure hbailout _ _)
        rintro v rfl
        rw [if_pos rfl, move_along]
        apply repeats_pure
        refine ⟨_, rfl, ?_, h.goal_eq, h.stack, h.outer, h.committed_eq⟩
        rw [hphase']
        exact .enter hnext
      · left
        rw [← h.goal_eq] at hmove'
        rw [enter_eq_move hseen hmove, enter_eq_move hseen' hmove', h.stack.depth_eq,
          hcode.groups_eq]
        apply repeats_map
        apply repeats_bind (Search.checkpoint_repeats hbailout _ _ _ _)
        rintro v w ⟨rfl, rfl⟩
        rw [if_pos rfl, if_pos rfl]
        apply repeats_mono (move_repeats hcode hbailout h hshadow)
        exact fun _ _ hnext => .running hnext

theorem pick_repeats (hcode : code.Shadows Near At code') (hbailout : search.bailout = none)
    (h : r.Shadow Near At r') :
    Repeats search.clock (r.pick.step code search) (r'.pick.step code' search)
      (Progress.Shadow Near At) := by
  have hframes := h.stack.frames
  have hdepth := h.stack.depth_eq
  have hrest {frames frames' : List Frame} (hshadow : List.Forall₂ (Frame.Shadow Near) frames frames') :
      Stack.Shadow Near { r.stack with frames := frames } { r'.stack with frames := frames' } :=
    ⟨hshadow, h.stack.maxDepth_eq, h.stack.groups_eq, h.stack.base_eq⟩
  unfold step
  simp only [Run.pick, Stack.pop?]
  generalize hleft : r.stack.frames = frames at hframes
  generalize hright : r'.stack.frames = frames' at hframes
  cases hframes with
  | nil => exact repeats_pure (.running ⟨.answer none, h.goal_eq, h.stack, h.outer, h.committed_eq⟩)
  | @cons frame frame' others others' hframe hothers =>
    have hpopped := h.pick.withStack (hrest hothers)
    dsimp only
    rw [(hrest hothers).depth_eq, hframe.position_eq hcode]
    apply repeats_bind (Search.checkpoint_repeats hbailout _ _ _ _)
    rintro v w ⟨rfl, rfl⟩
    exact repeats_pure (.running (hpopped.follow hframe))

/-- The shadow makes each step of the run, or waits for the next one. -/
theorem stepsWith (hcode : code.Shadows Near At code') (hbailout : search.bailout = none)
    (h : r.Shadow Near At r') : StepsWith code code' search Near At r r' := by
  obtain ⟨phase, goal, stack, outer, committed⟩ := r
  obtain ⟨phase', goal', stack', outer', committed'⟩ := r'
  have hphase := h.phase
  dsimp only at hphase
  cases hphase with
  | enter hnear => exact enter_stepsWith hcode hbailout h hnear rfl rfl
  | pick => exact .inl (pick_repeats hcode hbailout h)
  | answer found =>
    left
    have houter := h.outer
    dsimp only at houter
    cases houter with
    | nil =>
      have hmark := h.committed_eq
      dsimp only at hmark
      rw [hmark]
      exact repeats_pure (.finished _)
    | cons hs hrest =>
      apply repeats_map
      apply repeats_mono (leave_repeats hcode hbailout h hs hrest found)
      exact fun _ _ hnext => .running hnext

/-- The shadow ends with the same answer, after no more steps. -/
theorem iterate_repeats (hcode : code.Shadows Near At code') (hbailout : search.bailout = none)
    {fuel fuel' : Nat} (hfuel : fuel ≤ fuel') (h : r.Shadow Near At r') :
    Repeats search.clock (iterate code search fuel r) (iterate code' search fuel' r')
      (· = ·) := by
  induction fuel generalizing fuel' r r' with
  | zero => exact repeats_throw _ _
  | succ fuel ih =>
    rw [iterate]
    rcases stepsWith hcode hbailout h with hstep | hstep
    · obtain ⟨fuel', rfl⟩ := Nat.exists_eq_succ_of_ne_zero (by omega : fuel' ≠ 0)
      rw [iterate]
      apply repeats_bind hstep
      intro progress progress' hprogress
      cases hprogress with
      | finished attempt => exact repeats_pure rfl
      | running hnext => exact ih (by omega) hnext
    · apply repeats_bind_left hstep
      rintro progress ⟨next, rfl, hnext⟩
      exact ih (by omega) hnext

end Run

/-- Where a code shadows another, it finds what the other one finds, at no greater cost. -/
theorem Code.Shadows.search_repeats {code code' : Code} {search : Search} {initial initial' : Nat}
    (h : code.Shadows Near At code') (hbailout : search.bailout = none)
    (hinitial : ∀ start slots, Near (.start initial start slots) (.start initial' start slots))
    (start : Nat) :
    Repeats search.clock (code.search search initial start) (code'.search search initial' start)
      (· = ·) := by
  unfold Code.search
  apply repeats_get_bind
  intro t t' hlimits
  dsimp only
  rw [hlimits, h.groups_eq]
  have hempty : Stack.Shadow Near (.new t.limits.maxDepth code.groups)
      (.new t.limits.maxDepth code.groups) := .nested _ _ 0
  have hfirst := Frame.Shadow.follow (hinitial start (.unset code.groups))
  cases hpush : (Stack.new t.limits.maxDepth code.groups).push
      (.follow (.start initial start (.unset code.groups))) with
  | error e => exact repeats_throw e _
  | ok stack =>
    obtain ⟨stack', hpush', hstack⟩ := hempty.push hfirst hpush
    have hrun : (Run.start stack).Shadow Near At (Run.start stack') := ⟨.pick, rfl, hstack, .nil, rfl⟩
    have hiterated := Run.iterate_repeats h hbailout (Nat.le_refl Run.maxSteps) hrun
    rw [hpush']
    exact hiterated

end RegexEngine
