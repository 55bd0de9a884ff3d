import Mathlib.Data.List.Forall2
import RegexEngine.Error

/-!
Steps that may fail, and results that concur. A step that fails answers with nothing, so it is its
answers that are described, whatever the state was before, or where an invariant of the state holds.

Two computations may differ in how large they become, and then one of them may be refused by a bound
that the other one keeps. Apart from that, their results concur if both are failures, or both are
answers that correspond.
-/

namespace RegexEngine

theorem bind_eq_ok {ε α β : Type} {x : Except ε α} {f : α → Except ε β} {b : β} :
    x >>= f = .ok b ↔ ∃ a, x = .ok a ∧ f a = .ok b := by
  cases x with
  | error e => simp [bind, Except.bind]
  | ok a => simp [bind, Except.bind]

theorem exists_of_isOk {ε α : Type} {x : Except ε α} (h : x.isOk = true) : ∃ a, x = .ok a := by
  cases x with
  | error e => cases h
  | ok a => exact ⟨a, rfl⟩

/-- After a step that answers, what depends on the answer is done. -/
theorem run_bind_of_ok {σ ε α β : Type} {x : StateT σ (Except ε) α} {f : α → StateT σ (Except ε) β}
    {s s' : σ} {v : α} (h : x.run s = .ok (v, s')) : (x >>= f).run s = (f v).run s' := by
  rw [StateT.run_bind, h]
  rfl

/-- After a step that fails, nothing is done. -/
theorem run_bind_of_error {σ ε α β : Type} {x : StateT σ (Except ε) α}
    {f : α → StateT σ (Except ε) β} {s : σ} {e : ε} (h : x.run s = .error e) :
    (x >>= f).run s = .error e := by
  rw [StateT.run_bind, h]
  rfl

theorem run_bind_eq_ok {σ ε α β : Type} {x : StateT σ (Except ε) α} {f : α → StateT σ (Except ε) β}
    {s s₂ : σ} {w : β} :
    (x >>= f).run s = .ok (w, s₂) ↔
      ∃ v s₁, x.run s = .ok (v, s₁) ∧ (f v).run s₁ = .ok (w, s₂) := by
  rw [StateT.run_bind]
  cases x.run s with
  | error e => simp [bind, Except.bind]
  | ok answer =>
    obtain ⟨v, s₁⟩ := answer
    simp [bind, Except.bind]

/-- Every answer of a step is as described. -/
def Returns {σ ε α : Type} (x : StateT σ (Except ε) α) (post : α → Prop) : Prop :=
  ∀ (s : σ) (v : α) (s' : σ), x.run s = .ok (v, s') → post v

variable {σ ε α β : Type} {post : α → Prop}

theorem returns_pure {v : α} (h : post v) : Returns (pure v : StateT σ (Except ε) α) post := by
  intro s v' s' hrun
  cases hrun
  exact h

theorem returns_bind {x : StateT σ (Except ε) α} {f : α → StateT σ (Except ε) β}
    {mid : α → Prop} {post : β → Prop} (hx : Returns x mid)
    (hf : ∀ v, mid v → Returns (f v) post) : Returns (x >>= f) post := by
  intro s w s₂ hrun
  rw [StateT.run_bind] at hrun
  cases hv : x.run s with
  | error e =>
    rw [hv] at hrun
    cases hrun
  | ok answer =>
    rw [hv] at hrun
    exact hf answer.1 (hx s answer.1 answer.2 hv) answer.2 w s₂ hrun

/-- A step whose answer does not matter. -/
theorem returns_bind_any {x : StateT σ (Except ε) α} {f : α → StateT σ (Except ε) β}
    {post : β → Prop} (hf : ∀ v, Returns (f v) post) : Returns (x >>= f) post := by
  have hany : Returns x fun _ => True := fun _ _ _ _ => trivial
  exact returns_bind hany fun v _ => hf v

theorem returns_throw (e : ε) : Returns (throw e : StateT σ (Except ε) α) post := by
  intro s v s' hrun
  cases hrun

/-- A step keeps an invariant of the state, and where that holds, every answer is as described. -/
def Maintains (inv : σ → Prop) (x : StateT σ (Except ε) α) (post : α → Prop) : Prop :=
  ∀ (s : σ) (v : α) (s' : σ), x.run s = .ok (v, s') → inv s → inv s' ∧ post v

variable {inv : σ → Prop}

theorem maintains_pure {v : α} (h : post v) :
    Maintains inv (pure v : StateT σ (Except ε) α) post := by
  intro s v' s' hrun hinv
  cases hrun
  exact ⟨hinv, h⟩

theorem maintains_throw (e : ε) : Maintains inv (throw e : StateT σ (Except ε) α) post := by
  intro s v s' hrun
  cases hrun

/-- What does not depend on the state leaves it as it is. -/
theorem maintains_lift {x : Except ε α} (h : ∀ v, x = .ok v → post v) :
    Maintains inv (liftM x : StateT σ (Except ε) α) post := by
  intro s v s' hrun hinv
  cases x with
  | error e => cases hrun
  | ok value =>
    cases hrun
    exact ⟨hinv, h v rfl⟩

theorem maintains_bind {x : StateT σ (Except ε) α} {f : α → StateT σ (Except ε) β}
    {mid : α → Prop} {post : β → Prop} (hx : Maintains inv x mid)
    (hf : ∀ v, mid v → Maintains inv (f v) post) : Maintains inv (x >>= f) post := by
  intro s w s₂ hrun hinv
  rw [StateT.run_bind] at hrun
  cases hv : x.run s with
  | error e =>
    rw [hv] at hrun
    cases hrun
  | ok answer =>
    rw [hv] at hrun
    obtain ⟨hinv', hmid⟩ := hx s answer.1 answer.2 hv hinv
    exact hf answer.1 hmid answer.2 w s₂ hrun hinv'

/-! Steps for each item of a list. -/

theorem mapM_eq_ok {ε α β : Type} {f : α → Except ε β} {items : List α} {results : List β} :
    items.mapM f = .ok results ↔ List.Forall₂ (fun x y => f x = .ok y) items results := by
  induction items generalizing results with
  | nil => simp [pure, Except.pure, eq_comm]
  | cons x rest ih =>
    rw [List.mapM_cons, List.forall₂_cons_left_iff]
    cases hx : f x with
    | error e => simp [bind, Except.bind]
    | ok y =>
      cases hrest : rest.mapM f with
      | error e =>
        simp only [bind, Except.bind, reduceCtorEq, false_iff, not_exists, not_and]
        intro z others _ hothers _
        rw [ih.mpr hothers] at hrest
        cases hrest
      | ok others =>
        simp only [bind, Except.bind, pure, Except.pure, Except.ok.injEq, exists_and_left]
        constructor
        · rintro rfl
          exact ⟨y, rfl, others, ih.mp hrest, rfl⟩
        · rintro ⟨_, rfl, others', hothers, rfl⟩
          rw [ih.mpr hothers] at hrest
          cases hrest
          rfl

theorem exists_mapM {ε α β : Type} {f : α → Except ε β} {items : List α}
    (h : ∀ x ∈ items, ∃ y, f x = .ok y) : ∃ results, items.mapM f = .ok results := by
  induction items with
  | nil => exact ⟨[], rfl⟩
  | cons x rest ih =>
    obtain ⟨y, hy⟩ := h x List.mem_cons_self
    obtain ⟨others, hothers⟩ := ih fun z hz => h z (List.mem_cons_of_mem _ hz)
    refine ⟨y :: others, ?_⟩
    rw [List.mapM_cons, hy, hothers]
    rfl

end RegexEngine

/-! Results that concur. -/

namespace RegexEngine

/-- True for the errors of what was too large: a bound was exceeded, or the states of a
deterministic automaton were too many. -/
def Error.IsOfSize (e : Error) : Prop :=
  e.kind = .limit ∨ ∃ limit, e.cause = .automaton (.tooManySubsets limit)

/-- The result is a failure of what was too large. -/
def TooLarge {α : Type} : Except Error α → Prop
  | .ok _ => False
  | .error e => e.IsOfSize

theorem not_tooLarge_of_ok {α : Type} {r : Except Error α} {a : α} (h : r = .ok a) :
    ¬TooLarge r := by
  rw [h]
  exact id

section

variable {α β γ δ : Type} {same : α → β → Prop} {r : Except Error α} {r' : Except Error β}

/-- Both results are failures, or both are answers that correspond, unless one of them was too
large. -/
inductive Concur (same : α → β → Prop) : Except Error α → Except Error β → Prop
  | large {r : Except Error α} {r' : Except Error β} : TooLarge r → Concur same r r'
  | large' {r : Except Error α} {r' : Except Error β} : TooLarge r' → Concur same r r'
  | failed (e e' : Error) : Concur same (.error e) (.error e')
  | answered {a : α} {b : β} : same a b → Concur same (.ok a) (.ok b)

namespace Concur

theorem bind {next : γ → δ → Prop} (h : Concur same r r') {f : α → Except Error γ}
    {g : β → Except Error δ} (hf : ∀ a b, same a b → Concur next (f a) (g b)) :
    Concur next (r >>= f) (r' >>= g) := by
  cases h with
  | large hlarge =>
    cases r with
    | ok a => exact hlarge.elim
    | error e => exact .large hlarge
  | large' hlarge =>
    cases r' with
    | ok b => exact hlarge.elim
    | error e => exact .large' hlarge
  | failed e e' => exact .failed e e'
  | answered hsame => exact hf _ _ hsame

theorem map {next : γ → δ → Prop} (h : Concur same r r') {f : α → γ} {g : β → δ}
    (hf : ∀ a b, same a b → next (f a) (g b)) : Concur next (r.map f) (r'.map g) := by
  have hbind : Concur next (r >>= fun a => .ok (f a)) (r' >>= fun b => .ok (g b)) :=
    h.bind fun a b hab => .answered (hf a b hab)
  cases r <;> cases r' <;> exact hbind

theorem mono {next : α → β → Prop} (h : Concur same r r') (hmono : ∀ a b, same a b → next a b) :
    Concur next r r' := by
  cases h with
  | large hlarge => exact .large hlarge
  | large' hlarge => exact .large' hlarge
  | failed e e' => exact .failed e e'
  | answered hsame => exact .answered (hmono _ _ hsame)

theorem isOk_eq (h : Concur same r r') (hr : ¬TooLarge r) (hr' : ¬TooLarge r') :
    r.isOk = r'.isOk := by
  cases h with
  | large hlarge => exact absurd hlarge hr
  | large' hlarge => exact absurd hlarge hr'
  | failed _ _ => rfl
  | answered _ => rfl

theorem same_of_ok {a : α} {b : β} (h : Concur same (.ok a) (.ok b)) : same a b := by
  cases h with
  | large hlarge => exact hlarge.elim
  | large' hlarge => exact hlarge.elim
  | answered hsame => exact hsame

/-- What the results are compared by may depend on the second answer. -/
theorem choose {ι : Type} [Inhabited ι] {same : ι → α → β → Prop}
    (h : ∀ i, Concur (same i) r r') (choice : β → ι) :
    Concur (fun a b => same (choice b) a b) r r' := by
  cases r' with
  | error _ =>
    cases h default with
    | large hlarge => exact .large hlarge
    | large' hlarge => exact .large' hlarge
    | failed e _ => exact .failed e _
  | ok b =>
    cases h (choice b) with
    | large hlarge => exact .large hlarge
    | large' hlarge => exact .large' hlarge
    | answered hsame => exact .answered hsame

/-- Where answers are compared, they are the answers of both results. -/
theorem with_ok (h : Concur same r r') :
    Concur (fun a b => same a b ∧ r = .ok a ∧ r' = .ok b) r r' := by
  cases h with
  | large hlarge => exact .large hlarge
  | large' hlarge => exact .large' hlarge
  | failed e e' => exact .failed e e'
  | answered hsame => exact .answered ⟨hsame, rfl, rfl⟩

end Concur

end

end RegexEngine
