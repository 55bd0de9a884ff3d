import RegexEngine.SyntaxTree.Basic

/-!
Alternatives that offer something. In a tree that was read from a pattern, there is no alternation
without alternatives, from which no automaton could come out. What renumbers groups keeps that.
-/

namespace RegexEngine.Tree

attribute [simp] preorder preorders

/-- No alternation in the tree is without alternatives. -/
def AlwaysOffers (t : Tree) : Prop := alt [] ∉ t.preorder

theorem mem_preorders {node : Tree} {items : List Tree} :
    node ∈ preorders items ↔ ∃ item ∈ items, node ∈ item.preorder := by
  induction items with
  | nil => simp
  | cons item rest ih => simp [ih]

section Constructors

variable {t u v : Tree} {items : List Tree}

@[simp] theorem alwaysOffers_capture (i : Nat) (name : Option String) :
    (capture i name t).AlwaysOffers ↔ t.AlwaysOffers := by
  simp [AlwaysOffers]

@[simp] theorem alwaysOffers_group : (group t).AlwaysOffers ↔ t.AlwaysOffers := by
  simp [AlwaysOffers]

@[simp] theorem alwaysOffers_scope (opts : OptionSet) :
    (scope opts t).AlwaysOffers ↔ t.AlwaysOffers := by
  simp [AlwaysOffers]

@[simp] theorem alwaysOffers_repetition (q : Quantifier) :
    (repetition q t).AlwaysOffers ↔ t.AlwaysOffers := by
  simp [AlwaysOffers]

@[simp] theorem alwaysOffers_look (kind : LookKind) :
    (look kind t).AlwaysOffers ↔ t.AlwaysOffers := by
  simp [AlwaysOffers]

@[simp] theorem alwaysOffers_atomic : (atomic t).AlwaysOffers ↔ t.AlwaysOffers := by
  simp [AlwaysOffers]

@[simp] theorem alwaysOffers_groupCond (ref : GroupRef) (no : Option Tree) :
    (groupCond ref t no).AlwaysOffers ↔ t.AlwaysOffers ∧ ∀ u ∈ no, u.AlwaysOffers := by
  cases no <;> simp [AlwaysOffers]

@[simp] theorem alwaysOffers_lookCond (kind : LookKind) (no : Option Tree) :
    (lookCond kind t u no).AlwaysOffers ↔
      t.AlwaysOffers ∧ u.AlwaysOffers ∧ ∀ v ∈ no, v.AlwaysOffers := by
  cases no <;> simp [AlwaysOffers]

@[simp] theorem alwaysOffers_alt :
    (alt items).AlwaysOffers ↔ items ≠ [] ∧ ∀ item ∈ items, item.AlwaysOffers := by
  simp [AlwaysOffers, mem_preorders]

@[simp] theorem alwaysOffers_concat :
    (concat items).AlwaysOffers ↔ ∀ item ∈ items, item.AlwaysOffers := by
  simp [AlwaysOffers, mem_preorders]

@[simp] theorem alwaysOffers_empty : empty.AlwaysOffers := by
  simp [AlwaysOffers]

@[simp] theorem alwaysOffers_invalid : invalid.AlwaysOffers := by
  simp [AlwaysOffers]

@[simp] theorem alwaysOffers_options (opts : OptionSet) : (options opts).AlwaysOffers := by
  simp [AlwaysOffers]

theorem alwaysOffers_ofList (h : ∀ item ∈ items, item.AlwaysOffers) :
    (ofList items).AlwaysOffers := by
  unfold ofList
  split
  · simp
  · simpa using h
  · simpa using h

end Constructors

theorem mem_numbers_ne_nil (next : Nat) (items : List Tree) :
    (numbers next items).1 = [] ↔ items = [] := by
  cases items <;> simp [numbers]

mutual

/-- Numbering groups changes no alternatives. -/
theorem AlwaysOffers.number : (t : Tree) → (next : Nat) → t.AlwaysOffers →
    (number next t).1.AlwaysOffers
  | .capture _ _ c, next, h => by simpa [Tree.number] using AlwaysOffers.number c _ (by simpa using h)
  | .group c, next, h => by simpa [Tree.number] using AlwaysOffers.number c _ (by simpa using h)
  | .scope _ c, next, h => by simpa [Tree.number] using AlwaysOffers.number c _ (by simpa using h)
  | .repetition _ c, next, h => by
    simpa [Tree.number] using AlwaysOffers.number c _ (by simpa using h)
  | .look _ c, next, h => by simpa [Tree.number] using AlwaysOffers.number c _ (by simpa using h)
  | .atomic c, next, h => by simpa [Tree.number] using AlwaysOffers.number c _ (by simpa using h)
  | .groupCond _ y none, next, h => by
    simpa [Tree.number] using AlwaysOffers.number y _ (by simpa using h)
  | .groupCond _ y (some n), next, h => by
    have h : y.AlwaysOffers ∧ n.AlwaysOffers := by simpa using h
    simpa [Tree.number] using ⟨AlwaysOffers.number y _ h.1, AlwaysOffers.number n _ h.2⟩
  | .lookCond _ t y none, next, h => by
    have h : t.AlwaysOffers ∧ y.AlwaysOffers := by simpa using h
    simpa [Tree.number] using ⟨AlwaysOffers.number t _ h.1, AlwaysOffers.number y _ h.2⟩
  | .lookCond _ t y (some n), next, h => by
    have h : t.AlwaysOffers ∧ y.AlwaysOffers ∧ n.AlwaysOffers := by simpa using h
    simpa [Tree.number] using ⟨AlwaysOffers.number t _ h.1, AlwaysOffers.number y _ h.2.1,
      AlwaysOffers.number n _ h.2.2⟩
  | .alt items, next, h => by
    have h : items ≠ [] ∧ ∀ item ∈ items, item.AlwaysOffers := by simpa using h
    simpa [Tree.number, mem_numbers_ne_nil] using ⟨h.1, AlwaysOffers.numbers items _ h.2⟩
  | .concat items, next, h => by
    simpa [Tree.number] using AlwaysOffers.numbers items _ (by simpa using h)
  | .empty, _, h | .invalid, _, h | .literal _, _, h | .dot, _, h | .cls _ _, _, h
  | .backref _, _, h | .anchor _, _, h | .boundary _, _, h | .comment _, _, h | .options _, _, h
  | .verb _, _, h => h

theorem AlwaysOffers.numbers : (items : List Tree) → (next : Nat) →
    (∀ item ∈ items, item.AlwaysOffers) → ∀ item ∈ (numbers next items).1, item.AlwaysOffers
  | [], _, h => h
  | item :: rest, next, h => by
    rw [List.forall_mem_cons] at h
    simpa [Tree.numbers] using ⟨AlwaysOffers.number item next h.1, AlwaysOffers.numbers rest _ h.2⟩

end

mutual

/-- Renaming references changes no alternatives. -/
theorem AlwaysOffers.mapRefs (rename : Nat → Nat) : (t : Tree) → t.AlwaysOffers →
    (mapRefs rename t).AlwaysOffers
  | .capture _ _ c, h => by
    simpa [Tree.mapRefs] using AlwaysOffers.mapRefs rename c (by simpa using h)
  | .group c, h => by simpa [Tree.mapRefs] using AlwaysOffers.mapRefs rename c (by simpa using h)
  | .scope _ c, h => by simpa [Tree.mapRefs] using AlwaysOffers.mapRefs rename c (by simpa using h)
  | .repetition _ c, h => by
    simpa [Tree.mapRefs] using AlwaysOffers.mapRefs rename c (by simpa using h)
  | .look _ c, h => by simpa [Tree.mapRefs] using AlwaysOffers.mapRefs rename c (by simpa using h)
  | .atomic c, h => by simpa [Tree.mapRefs] using AlwaysOffers.mapRefs rename c (by simpa using h)
  | .backref _, _ => by simp [Tree.mapRefs, AlwaysOffers]
  | .groupCond _ y none, h => by
    simpa [Tree.mapRefs] using AlwaysOffers.mapRefs rename y (by simpa using h)
  | .groupCond _ y (some n), h => by
    have h : y.AlwaysOffers ∧ n.AlwaysOffers := by simpa using h
    simpa [Tree.mapRefs] using
      ⟨AlwaysOffers.mapRefs rename y h.1, AlwaysOffers.mapRefs rename n h.2⟩
  | .lookCond _ t y none, h => by
    have h : t.AlwaysOffers ∧ y.AlwaysOffers := by simpa using h
    simpa [Tree.mapRefs] using
      ⟨AlwaysOffers.mapRefs rename t h.1, AlwaysOffers.mapRefs rename y h.2⟩
  | .lookCond _ t y (some n), h => by
    have h : t.AlwaysOffers ∧ y.AlwaysOffers ∧ n.AlwaysOffers := by simpa using h
    simpa [Tree.mapRefs] using ⟨AlwaysOffers.mapRefs rename t h.1,
      AlwaysOffers.mapRefs rename y h.2.1, AlwaysOffers.mapRefs rename n h.2.2⟩
  | .alt [], h => absurd rfl (alwaysOffers_alt.mp h).1
  | .alt (item :: rest), h => by
    have h := (alwaysOffers_alt.mp h).2
    have hmapped := AlwaysOffers.mapRefsAll rename (item :: rest) h
    simpa [Tree.mapRefs, Tree.mapRefsAll] using hmapped
  | .concat items, h => by
    simpa [Tree.mapRefs] using AlwaysOffers.mapRefsAll rename items (by simpa using h)
  | .empty, h | .invalid, h | .literal _, h | .dot, h | .cls _ _, h | .anchor _, h
  | .boundary _, h | .comment _, h | .options _, h | .verb _, h => h

theorem AlwaysOffers.mapRefsAll (rename : Nat → Nat) : (items : List Tree) →
    (∀ item ∈ items, item.AlwaysOffers) → ∀ item ∈ mapRefsAll rename items, item.AlwaysOffers
  | [], h => h
  | item :: rest, h => by
    rw [List.forall_mem_cons] at h
    simpa [Tree.mapRefsAll] using
      ⟨AlwaysOffers.mapRefs rename item h.1, AlwaysOffers.mapRefsAll rename rest h.2⟩

end

/-- Renumbering the groups of a tree changes no alternatives. -/
theorem AlwaysOffers.renumber {t : Tree} (h : t.AlwaysOffers) : t.renumber.AlwaysOffers :=
  AlwaysOffers.mapRefs _ _ (AlwaysOffers.number t 1 h)

end RegexEngine.Tree
