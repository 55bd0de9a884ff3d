import RegexEngine.Search.Backtracking

/-!
What a tracked computation answers with, as long as no bound stops it. A bound may stop a search at
any checkpoint, and where that happens depends on the clock and on the work done before. A statement
about answers leaves all of that open: it says what holds of an answer if there is one, and that no
other failure than that of a bound can take its place.
-/

namespace RegexEngine

/-- True for the errors of searches that were stopped at a bound. -/
def Error.IsLimit (e : Error) : Prop := e.kind = .limit ∨ e.kind = .timeout

theorem LimitFault.error_isLimit (fault : LimitFault) : fault.error.IsLimit := by
  cases fault <;> simp [Error.IsLimit, LimitFault.error, Error.of, Error.kind, Cause.kind,
    LimitFault.kind]

/-- The result is that of a search that was stopped at a bound. -/
def StoppedAtLimit {α : Type} : Except Error α → Prop
  | .ok _ => False
  | .error e => e.IsLimit

theorem StoppedAtLimit.of_isOk {α : Type} {x : Except Error α} (h : x.isOk = true) :
    ¬StoppedAtLimit x := by
  cases x with
  | ok _ => exact id
  | error _ => cases h

namespace Tracked

variable {α β : Type}

/-- From every tracker, the computation is stopped at a bound or answers as `post` says. -/
def Ensures (x : Tracked α) (post : α → Prop) : Prop :=
  ∀ t : Tracker, StoppedAtLimit (x.run t).1 ∨ ∃ value, (x.run t).1 = .ok value ∧ post value

/-- A failure of the first computation is that of both, with the work that led to it. -/
theorem run_bind (x : Tracked α) (f : α → Tracked β) (t : Tracker) :
    (x >>= f).run t =
      match x.run t with
      | (.ok value, t') => (f value).run t'
      | (.error e, t') => (.error e, t') := by
  unfold ExceptT.run
  simp only [bind, ExceptT.bind, ExceptT.mk, StateT.bind, ExceptT.bindCont]
  cases x t with
  | mk result t' => cases result <;> rfl

theorem ensures_pure {post : α → Prop} {value : α} (h : post value) :
    Ensures (pure value) post :=
  fun _ => .inr ⟨value, rfl, h⟩

theorem ensures_throw_limit {post : α → Prop} (fault : LimitFault) :
    Ensures (throw fault.error) post :=
  fun _ => .inl fault.error_isLimit

theorem ensures_bind {x : Tracked α} {f : α → Tracked β} {mid : α → Prop} {post : β → Prop}
    (hx : Ensures x mid) (hf : ∀ value, mid value → Ensures (f value) post) :
    Ensures (x >>= f) post := by
  intro t
  have hrun := run_bind x f t
  rcases hcase : x.run t with ⟨e | value, t'⟩
  · rcases hx t with hstop | ⟨value, hok, _⟩
    · rw [hcase] at hstop
      rw [hrun, hcase]
      exact .inl hstop
    · rw [hcase] at hok
      cases hok
  · rcases hx t with hstop | ⟨value', hok, hmid⟩
    · rw [hcase] at hstop
      exact hstop.elim
    · rw [hcase] at hok
      cases hok
      rw [hrun, hcase]
      exact hf value hmid t'

theorem ensures_mono {x : Tracked α} {mid post : α → Prop} (hx : Ensures x mid)
    (h : ∀ value, mid value → post value) : Ensures x post := by
  intro t
  rcases hx t with hstop | ⟨value, hok, hmid⟩
  · exact .inl hstop
  · exact .inr ⟨value, hok, h value hmid⟩

theorem ensures_map {x : Tracked α} {f : α → β} {post : β → Prop}
    (hx : Ensures x fun value => post (f value)) : Ensures (f <$> x) post := by
  rw [map_eq_pure_bind]
  exact ensures_bind hx fun _ h => ensures_pure h

/-- Reading the tracker answers with some tracker. -/
theorem ensures_get_bind {f : Tracker → Tracked β} {post : β → Prop}
    (hf : ∀ t, Ensures (f t) post) : Ensures (getThe Tracker >>= f) post :=
  fun t => hf t t

end Tracked

namespace Tracker

open Tracked

/-- A checkpoint stops the search at its bounds, and only counts otherwise. -/
theorem run_checkpoint (clock : Clock) (depth : Nat) (t : Tracker) :
    (Tracker.checkpoint clock depth).run t =
      if 0 < t.limits.maxTransitions && t.limits.maxTransitions < t.transitions + 1 then
        (.error (LimitFault.transitions t.limits.maxTransitions).error, (t.count depth).stop)
      else if t.deadline.any (· ≤ clock (t.total + 1)) then
        (.error LimitFault.deadline.error, { t.count depth with timedOut := true })
      else (.ok (), t.count depth) := by
  change (if 0 < t.limits.maxTransitions && t.limits.maxTransitions < t.transitions + 1 then
      (do
        set (t.count depth).stop
        throw (LimitFault.transitions t.limits.maxTransitions).error : Tracked Unit)
    else if t.deadline.any (· ≤ clock (t.total + 1)) then
      (do
        set { t.count depth with timedOut := true }
        throw LimitFault.deadline.error : Tracked Unit)
    else set (t.count depth)).run t = _
  split
  · rfl
  · split <;> rfl

theorem checkpoint_ensures (clock : Clock) (depth : Nat) :
    Ensures (Tracker.checkpoint clock depth) fun _ => True := by
  unfold Tracker.checkpoint
  apply ensures_get_bind
  intro t
  dsimp only
  split
  · exact fun _ => .inl (LimitFault.error_isLimit _)
  · split
    · exact fun _ => .inl (LimitFault.error_isLimit _)
    · exact fun _ => .inr ⟨(), rfl, trivial⟩

theorem checkPush_ensures (depth : Nat) : Ensures (Tracker.checkPush depth) fun _ => True := by
  unfold Tracker.checkPush
  apply ensures_get_bind
  intro t
  split
  · exact fun _ => .inl (LimitFault.error_isLimit _)
  · exact fun _ => .inr ⟨(), rfl, trivial⟩

end Tracker

namespace Search

open Tracked

/-- Without strategies, a checkpoint that does not stop the search lets it go on. -/
theorem checkpoint_ensures {search : Search} (hbailout : search.bailout = none)
    (depth position : Nat) : Ensures (search.checkpoint depth position) (· = true) := by
  unfold checkpoint
  refine ensures_bind (Tracker.checkpoint_ensures search.clock depth) fun _ _ => ?_
  rw [hbailout]
  exact ensures_pure rfl

/-- Where nothing is bounded, a checkpoint only counts. -/
theorem run_checkpoint {search : Search} (hbailout : search.bailout = none) {t : Tracker}
    (hlimit : t.limits.maxTransitions = 0) (hdeadline : t.deadline = none)
    (depth position : Nat) :
    (search.checkpoint depth position).run t = (.ok true, t.count depth) := by
  have hcheckpoint : (Tracker.checkpoint search.clock depth).run t = (.ok (), t.count depth) := by
    show (if _ then _ else _ : Tracked Unit) _ = _
    simp only [Tracker.count, hlimit, hdeadline]
    rfl
  unfold checkpoint
  rw [run_bind, hcheckpoint, hbailout]
  rfl

theorem checkPush_ensures {search : Search} (hbailout : search.bailout = none)
    (depth position : Nat) : Ensures (search.checkPush depth position) (· = true) := by
  unfold checkPush
  exact ensures_bind (Tracker.checkPush_ensures depth) fun _ _ => checkpoint_ensures hbailout _ _

end Search

end RegexEngine
