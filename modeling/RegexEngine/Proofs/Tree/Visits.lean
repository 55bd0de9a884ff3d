import RegexEngine.Proofs.Search.Stages
import RegexEngine.Proofs.Tree.Numbers

/-!
How often a search may come to a capture group of an expression. An expression fits two stages of a
group if it can be entered at the first and left at the second: the group opens along the way only
where it is outside, a lookaround that has the group is passed from ahead of it to behind it, and a
repetition that comes round ends where it has begun. So a group in a lookaround that is repeated
fits no stages. All other groups do.
-/

namespace RegexEngine

/-- True for a repetition that can come round more than once. -/
def Quantifier.recurs (q : Quantifier) : Bool :=
  decide (1 < q.min) || q.max.all fun most => 1 < most

namespace Tree

/-- The groups that stand in a lookaround. -/
def lookedIndices : Tree → List Nat
  | look _ child | lookCond _ child _ _ => child.indices
  | _ => []

/-- The groups of a tree that stand in lookarounds. -/
def lookedGroups (t : Tree) : List Nat := t.gather lookedIndices

/-- The groups that stand in lookarounds of a repetition that can come round more than once. -/
def revisitedIndices : Tree → List Nat
  | repetition q child => if q.recurs then child.lookedGroups else []
  | _ => []

/-- The groups of a tree that stand in lookarounds that can be passed more than once. -/
def revisitedGroups (t : Tree) : List Nat := t.gather revisitedIndices

mutual

/-- An expression can be entered at one stage of a group and left at another. -/
def Fits (group : Nat) : Tree → Stage → Stage → Prop
  | capture index _ child, y, z =>
    0 < index ∧ if index = group then y = .outside ∧ z = .outside ∧ Fits group child .within .within
      else Fits group child y z
  | .group child, y, z | scope _ child, y, z => Fits group child y z
  | repetition q child, y, z =>
    if q.possessive then ∃ e e', Fits group child e e' ∧ e.Next e' ∧ (q.recurs = true → e' = e) ∧
      Stage.Through true y e z
    else Fits group child y z ∧ y.Next z ∧ (q.recurs = true → z = y)
  | look _ child, y, z => ∃ e e', Fits group child e e' ∧ Stage.Through false y e z
  | atomic child, y, z => ∃ e e', Fits group child e e' ∧ Stage.Through true y e z
  | groupCond _ yes none, y, z => Fits group yes y z ∧ y.Next z
  | groupCond _ yes (some no), y, z =>
    (∃ x, Fits group yes y x ∧ x.Next z) ∧ ∃ x, Fits group no y x ∧ x.Next z
  | lookCond _ test yes none, y, z => ∃ e e' x, Fits group test e e' ∧ Stage.Through false y e x ∧
      Fits group yes x z ∧ x.Next z
  | lookCond _ test yes (some no), y, z => ∃ e e' x, Fits group test e e' ∧
      Stage.Through false y e x ∧ (∃ w, Fits group yes x w ∧ w.Next z) ∧
        ∃ w, Fits group no x w ∧ w.Next z
  | alt items, y, z => FitsEach group items y z ∧ y.Next z
  | concat items, y, z => FitsAll group items y z
  | _, y, z => y.Next z

/-- Each of some expressions can be entered at one stage and left so that another one comes next. -/
def FitsEach (group : Nat) : List Tree → Stage → Stage → Prop
  | [], _, _ => True
  | item :: rest, y, z => (∃ x, Fits group item y x ∧ x.Next z) ∧ FitsEach group rest y z

/-- Expressions one after the other can be entered at one stage and left at another. -/
def FitsAll (group : Nat) : List Tree → Stage → Stage → Prop
  | [], y, z => y.Next z
  | item :: rest, y, z => ∃ x, Fits group item y x ∧ FitsAll group rest x z

end

variable {group : Nat}

/-- Numbers of groups are not 0, and no two groups have the same one. -/
def Apart (numbers : List Nat) : Prop := 0 ∉ numbers ∧ numbers.Nodup

theorem apart_range' (count : Nat) : Apart (List.range' 1 count) :=
  ⟨by simp [List.mem_range'_1], List.nodup_range'⟩

theorem Apart.append {numbers more : List Nat} (h : Apart (numbers ++ more)) (group : Nat) :
    Apart numbers ∧ Apart more ∧ (group ∈ numbers → group ∉ more) := by
  obtain ⟨hpos, hdistinct⟩ := h
  obtain ⟨hnumbers, hmore, hne⟩ := List.nodup_append.mp hdistinct
  rw [List.mem_append, not_or] at hpos
  exact ⟨⟨hpos.1, hnumbers⟩, ⟨hpos.2, hmore⟩, fun hmem hmem' => hne group hmem group hmem' rfl⟩

theorem Apart.cons {number : Nat} {more : List Nat} (h : Apart (number :: more)) :
    0 < number ∧ Apart more ∧ number ∉ more := by
  have hsplit : Apart ([number] ++ more) := h
  obtain ⟨hnumber, hmore, hne⟩ := hsplit.append number
  have hpos := hnumber.1
  simp only [List.mem_singleton] at hpos
  exact ⟨by omega, hmore, hne List.mem_cons_self⟩

mutual

theorem mem_indices_of_looked : (t : Tree) → group ∈ t.lookedGroups → group ∈ t.indices
  | .capture _ _ c, h => by
    have h : group ∈ c.lookedGroups := by
      simpa [lookedGroups, lookedIndices] using h
    simpa [indices, captureIndex] using .inr (mem_indices_of_looked c h)
  | .group c, h | .scope _ c, h | .repetition _ c, h | .atomic c, h | .groupCond _ c none, h => by
    have h : group ∈ c.lookedGroups := by
      simpa [lookedGroups, lookedIndices] using h
    simpa [indices, captureIndex] using mem_indices_of_looked c h
  | .look _ c, h => by
    simp only [lookedGroups, gather_look, lookedIndices, List.mem_append] at h
    simp only [indices, gather_look, captureIndex, List.nil_append]
    exact h.elim id (mem_indices_of_looked c)
  | .groupCond _ y (some n), h => by
    simp only [lookedGroups, gather_groupCond_some, lookedIndices, List.nil_append,
      List.mem_append] at h
    simp only [indices, gather_groupCond_some, captureIndex, List.nil_append, List.mem_append]
    exact h.imp (mem_indices_of_looked y) (mem_indices_of_looked n)
  | .lookCond _ t y none, h => by
    simp only [lookedGroups, gather_lookCond_none, lookedIndices, List.mem_append] at h
    simp only [indices, gather_lookCond_none, captureIndex, List.nil_append, List.mem_append]
    rcases h with h | h | h
    · exact .inl h
    · exact .inl (mem_indices_of_looked t h)
    · exact .inr (mem_indices_of_looked y h)
  | .lookCond _ t y (some n), h => by
    simp only [lookedGroups, gather_lookCond_some, lookedIndices, List.mem_append] at h
    simp only [indices, gather_lookCond_some, captureIndex, List.nil_append, List.mem_append]
    rcases h with h | h | h | h
    · exact .inl h
    · exact .inl (mem_indices_of_looked t h)
    · exact .inr (.inl (mem_indices_of_looked y h))
    · exact .inr (.inr (mem_indices_of_looked n h))
  | .alt items, h | .concat items, h => by
    simp only [lookedGroups, gather_alt, gather_concat, lookedIndices, List.nil_append] at h
    simpa [indices, captureIndex] using mem_indices_of_looked_all items h

theorem mem_indices_of_looked_all : (items : List Tree) →
    group ∈ items.flatMap (gather lookedIndices) → group ∈ items.flatMap (gather captureIndex)
  | [], h => h
  | item :: rest, h => by
    rw [List.flatMap_cons, List.mem_append] at h ⊢
    exact h.imp (mem_indices_of_looked item) (mem_indices_of_looked_all rest)

end

mutual

/-- An expression without the group fits every stage. -/
theorem fits_apart : (t : Tree) → (z : Stage) → 0 ∉ t.indices → group ∉ t.indices → t.Fits group z z
  | .capture index _ c, z, hpos, h => by
    simp only [indices, gather_capture, captureIndex, List.singleton_append, List.mem_cons,
      not_or] at hpos h
    rw [Fits, if_neg (Ne.symm h.1)]
    exact ⟨by omega, fits_apart c z hpos.2 h.2⟩
  | .group c, z, hpos, h | .scope _ c, z, hpos, h => by
    simp only [indices, gather_group, gather_scope, captureIndex, List.nil_append] at hpos h
    exact fits_apart c z hpos h
  | .repetition q c, z, hpos, h => by
    simp only [indices, gather_repetition, captureIndex, List.nil_append] at hpos h
    rw [Fits]
    split
    · exact ⟨.behind, .behind, fits_apart c .behind hpos h, .same _, fun _ => rfl, .apart z⟩
    · exact ⟨fits_apart c z hpos h, .same _, fun _ => rfl⟩
  | .look _ c, z, hpos, h => by
    simp only [indices, gather_look, captureIndex, List.nil_append] at hpos h
    exact ⟨.behind, .behind, fits_apart c .behind hpos h, .apart z⟩
  | .atomic c, z, hpos, h => by
    simp only [indices, gather_atomic, captureIndex, List.nil_append] at hpos h
    exact ⟨.behind, .behind, fits_apart c .behind hpos h, .apart z⟩
  | .groupCond _ y none, z, hpos, h => by
    simp only [indices, gather_groupCond_none, captureIndex, List.nil_append] at hpos h
    exact ⟨fits_apart y z hpos h, .same z⟩
  | .groupCond _ y (some n), z, hpos, h => by
    simp only [indices, gather_groupCond_some, captureIndex, List.nil_append, List.mem_append,
      not_or] at hpos h
    exact ⟨⟨z, fits_apart y z hpos.1 h.1, .same z⟩, z, fits_apart n z hpos.2 h.2, .same z⟩
  | .lookCond _ t y none, z, hpos, h => by
    simp only [indices, gather_lookCond_none, captureIndex, List.nil_append, List.mem_append,
      not_or] at hpos h
    exact ⟨.behind, .behind, z, fits_apart t .behind hpos.1 h.1, .apart z,
      fits_apart y z hpos.2 h.2, .same z⟩
  | .lookCond _ t y (some n), z, hpos, h => by
    simp only [indices, gather_lookCond_some, captureIndex, List.nil_append, List.mem_append,
      not_or] at hpos h
    exact ⟨.behind, .behind, z, fits_apart t .behind hpos.1 h.1, .apart z,
      ⟨z, fits_apart y z hpos.2.1 h.2.1, .same z⟩, z, fits_apart n z hpos.2.2 h.2.2, .same z⟩
  | .alt items, z, hpos, h => by
    simp only [indices, gather_alt, captureIndex, List.nil_append] at hpos h
    exact ⟨fitsEach_apart items z hpos h, .same z⟩
  | .concat items, z, hpos, h => by
    simp only [indices, gather_concat, captureIndex, List.nil_append] at hpos h
    exact fitsAll_apart items z hpos h
  | .empty, z, _, _ | .invalid, z, _, _ | .literal _, z, _, _ | .dot, z, _, _ | .cls _ _, z, _, _
  | .backref _, z, _, _ | .anchor _, z, _, _ | .boundary _, z, _, _ | .comment _, z, _, _
  | .options _, z, _, _ | .verb _, z, _, _ => Stage.Next.same z

theorem fitsEach_apart : (items : List Tree) → (z : Stage) →
    0 ∉ items.flatMap (gather captureIndex) → group ∉ items.flatMap (gather captureIndex) →
      FitsEach group items z z
  | [], _, _, _ => trivial
  | item :: rest, z, hpos, h => by
    simp only [List.flatMap_cons, List.mem_append, not_or] at hpos h
    exact ⟨⟨z, fits_apart item z hpos.1 h.1, .same z⟩, fitsEach_apart rest z hpos.2 h.2⟩

theorem fitsAll_apart : (items : List Tree) → (z : Stage) →
    0 ∉ items.flatMap (gather captureIndex) → group ∉ items.flatMap (gather captureIndex) →
      FitsAll group items z z
  | [], z, _, _ => Stage.Next.same z
  | item :: rest, z, hpos, h => by
    simp only [List.flatMap_cons, List.mem_append, not_or] at hpos h
    exact ⟨z, fits_apart item z hpos.1 h.1, fitsAll_apart rest z hpos.2 h.2⟩

end

mutual

/-- A group that is in no lookaround opens and closes along the way. -/
theorem fits_level : (t : Tree) → Apart t.indices → group ∉ t.lookedGroups →
    t.Fits group .outside .outside
  | .capture index _ c, hapart, h => by
    simp only [indices, gather_capture, captureIndex, List.singleton_append] at hapart
    simp only [lookedGroups, gather_capture, lookedIndices, List.nil_append] at h
    obtain ⟨hpos, hchild, hne⟩ := hapart.cons
    refine ⟨hpos, ?_⟩
    split
    · rename_i heq
      exact ⟨rfl, rfl, fits_apart c .within hchild.1 (heq ▸ hne)⟩
    · exact fits_level c hchild h
  | .group c, hapart, h | .scope _ c, hapart, h => by
    simp only [indices, gather_group, gather_scope, captureIndex, List.nil_append] at hapart
    simp only [lookedGroups, gather_group, gather_scope, lookedIndices, List.nil_append] at h
    exact fits_level c hapart h
  | .repetition q c, hapart, h => by
    simp only [indices, gather_repetition, captureIndex, List.nil_append] at hapart
    simp only [lookedGroups, gather_repetition, lookedIndices, List.nil_append] at h
    have hchild := fits_level c hapart h
    rw [Fits]
    split
    · exact ⟨.outside, .outside, hchild, .same _, fun _ => rfl, .level rfl⟩
    · exact ⟨hchild, .same _, fun _ => rfl⟩
  | .look _ c, hapart, h => by
    simp only [indices, gather_look, captureIndex, List.nil_append] at hapart
    simp only [lookedGroups, gather_look, lookedIndices, List.mem_append, not_or] at h
    exact ⟨.behind, .behind, fits_apart c .behind hapart.1 h.1, .apart _⟩
  | .atomic c, hapart, h => by
    simp only [indices, gather_atomic, captureIndex, List.nil_append] at hapart
    simp only [lookedGroups, gather_atomic, lookedIndices, List.nil_append] at h
    exact ⟨.outside, .outside, fits_level c hapart h, .level rfl⟩
  | .groupCond _ y none, hapart, h => by
    simp only [indices, gather_groupCond_none, captureIndex, List.nil_append] at hapart
    simp only [lookedGroups, gather_groupCond_none, lookedIndices, List.nil_append] at h
    exact ⟨fits_level y hapart h, .same _⟩
  | .groupCond _ y (some n), hapart, h => by
    simp only [indices, gather_groupCond_some, captureIndex, List.nil_append] at hapart
    simp only [lookedGroups, gather_groupCond_some, lookedIndices, List.nil_append,
      List.mem_append, not_or] at h
    obtain ⟨hyes, hno, _⟩ := hapart.append group
    exact ⟨⟨_, fits_level y hyes h.1, .same _⟩, _, fits_level n hno h.2, .same _⟩
  | .lookCond _ t y none, hapart, h => by
    simp only [indices, gather_lookCond_none, captureIndex, List.nil_append] at hapart
    simp only [lookedGroups, gather_lookCond_none, lookedIndices, List.mem_append, not_or] at h
    obtain ⟨htest, hyes, _⟩ := hapart.append group
    exact ⟨.behind, .behind, .outside, fits_apart t .behind htest.1 h.1, .apart _,
      fits_level y hyes h.2.2, .same _⟩
  | .lookCond _ t y (some n), hapart, h => by
    simp only [indices, gather_lookCond_some, captureIndex, List.nil_append] at hapart
    simp only [lookedGroups, gather_lookCond_some, lookedIndices, List.mem_append, not_or] at h
    obtain ⟨htest, hbranches, _⟩ := hapart.append group
    obtain ⟨hyes, hno, _⟩ := hbranches.append group
    exact ⟨.behind, .behind, .outside, fits_apart t .behind htest.1 h.1, .apart _,
      ⟨_, fits_level y hyes h.2.2.1, .same _⟩, _, fits_level n hno h.2.2.2, .same _⟩
  | .alt items, hapart, h => by
    simp only [indices, gather_alt, captureIndex, List.nil_append] at hapart
    simp only [lookedGroups, gather_alt, lookedIndices, List.nil_append] at h
    exact ⟨fitsEach_level items hapart h, .same _⟩
  | .concat items, hapart, h => by
    simp only [indices, gather_concat, captureIndex, List.nil_append] at hapart
    simp only [lookedGroups, gather_concat, lookedIndices, List.nil_append] at h
    exact fitsAll_level items hapart h
  | .empty, _, _ | .invalid, _, _ | .literal _, _, _ | .dot, _, _ | .cls _ _, _, _
  | .backref _, _, _ | .anchor _, _, _ | .boundary _, _, _ | .comment _, _, _
  | .options _, _, _ | .verb _, _, _ => Stage.Next.same _

theorem fitsEach_level : (items : List Tree) → Apart (items.flatMap (gather captureIndex)) →
    group ∉ items.flatMap (gather lookedIndices) → FitsEach group items .outside .outside
  | [], _, _ => trivial
  | item :: rest, hapart, h => by
    rw [List.flatMap_cons, List.mem_append, not_or] at h
    obtain ⟨hitem, hrest, _⟩ := hapart.append group
    exact ⟨⟨_, fits_level item hitem h.1, .same _⟩, fitsEach_level rest hrest h.2⟩

theorem fitsAll_level : (items : List Tree) → Apart (items.flatMap (gather captureIndex)) →
    group ∉ items.flatMap (gather lookedIndices) → FitsAll group items .outside .outside
  | [], _, _ => Stage.Next.same _
  | item :: rest, hapart, h => by
    rw [List.flatMap_cons, List.mem_append, not_or] at h
    obtain ⟨hitem, hrest, _⟩ := hapart.append group
    exact ⟨_, fits_level item hitem h.1, fitsAll_level rest hrest h.2⟩

end

theorem FitsEach.next {items : List Tree} {y z z' : Stage} (h : FitsEach group items y z)
    (hnext : z.Next z') : FitsEach group items y z' := by
  induction items with
  | nil => trivial
  | cons item rest ih =>
    obtain ⟨⟨x, hitem, hx⟩, hrest⟩ := h
    exact ⟨⟨x, hitem, hx.trans hnext⟩, ih hrest⟩

/-- The body of a lookaround that is passed once. -/
theorem fits_around {t : Tree} (hapart : Apart t.indices)
    (hlooked : group ∈ t.lookedGroups → t.Fits group .ahead .behind) :
    ∃ e e', t.Fits group e e' ∧ Stage.Through false .ahead e .behind := by
  by_cases h : group ∈ t.lookedGroups
  · exact ⟨.ahead, .behind, hlooked h, .around (by decide)⟩
  · exact ⟨.outside, .outside, fits_level t hapart h, .around (by decide)⟩

mutual

/-- A group that stands in a lookaround is passed once, unless it is repeated. -/
theorem fits_looked : (t : Tree) → Apart t.indices → group ∈ t.lookedGroups →
    group ∉ t.revisitedGroups → t.Fits group .ahead .behind
  | .capture index _ c, hapart, h, honce => by
    simp only [indices, gather_capture, captureIndex, List.singleton_append] at hapart
    simp only [lookedGroups, gather_capture, lookedIndices, List.nil_append] at h
    simp only [revisitedGroups, gather_capture, revisitedIndices, List.nil_append] at honce
    obtain ⟨hpos, hchild, hne⟩ := hapart.cons
    have hindex : index ≠ group := by
      rintro rfl
      exact hne (mem_indices_of_looked c h)
    rw [Fits, if_neg hindex]
    exact ⟨hpos, fits_looked c hchild h honce⟩
  | .group c, hapart, h, honce | .scope _ c, hapart, h, honce => by
    simp only [indices, gather_group, gather_scope, captureIndex, List.nil_append] at hapart
    simp only [lookedGroups, gather_group, gather_scope, lookedIndices, List.nil_append] at h
    simp only [revisitedGroups, gather_group, gather_scope, revisitedIndices,
      List.nil_append] at honce
    exact fits_looked c hapart h honce
  | .repetition q c, hapart, h, honce => by
    simp only [indices, gather_repetition, captureIndex, List.nil_append] at hapart
    simp only [lookedGroups, gather_repetition, lookedIndices, List.nil_append] at h
    simp only [revisitedGroups, gather_repetition, revisitedIndices, List.mem_append,
      not_or] at honce
    have hrecurs : q.recurs ≠ true := by
      intro hrecurs
      rw [if_pos hrecurs] at honce
      exact honce.1 h
    have hchild := fits_looked c hapart h honce.2
    rw [Fits]
    split
    · exact ⟨.ahead, .behind, hchild, .passes, fun h => absurd h hrecurs, .around (by decide)⟩
    · exact ⟨hchild, .passes, fun h => absurd h hrecurs⟩
  | .look _ c, hapart, h, honce => by
    simp only [indices, gather_look, captureIndex, List.nil_append] at hapart
    simp only [revisitedGroups, gather_look, revisitedIndices, List.nil_append] at honce
    exact fits_around hapart fun h => fits_looked c hapart h honce
  | .atomic c, hapart, h, honce => by
    simp only [indices, gather_atomic, captureIndex, List.nil_append] at hapart
    simp only [lookedGroups, gather_atomic, lookedIndices, List.nil_append] at h
    simp only [revisitedGroups, gather_atomic, revisitedIndices, List.nil_append] at honce
    exact ⟨.ahead, .behind, fits_looked c hapart h honce, .around (by decide)⟩
  | .groupCond _ y none, hapart, h, honce => by
    simp only [indices, gather_groupCond_none, captureIndex, List.nil_append] at hapart
    simp only [lookedGroups, gather_groupCond_none, lookedIndices, List.nil_append] at h
    simp only [revisitedGroups, gather_groupCond_none, revisitedIndices, List.nil_append] at honce
    exact ⟨fits_looked y hapart h honce, .passes⟩
  | .groupCond _ y (some n), hapart, h, honce => by
    simp only [indices, gather_groupCond_some, captureIndex, List.nil_append] at hapart
    simp only [lookedGroups, gather_groupCond_some, lookedIndices, List.nil_append,
      List.mem_append] at h
    simp only [revisitedGroups, gather_groupCond_some, revisitedIndices, List.nil_append,
      List.mem_append, not_or] at honce
    obtain ⟨hyes, hno, hne⟩ := hapart.append group
    rcases h with h | h
    · have hno := fits_apart n .ahead hno.1 (hne (mem_indices_of_looked y h))
      exact ⟨⟨_, fits_looked y hyes h honce.1, .same _⟩, _, hno, .passes⟩
    · have hyes := fits_apart y .ahead hyes.1 fun hmem => hne hmem (mem_indices_of_looked n h)
      exact ⟨⟨_, hyes, .passes⟩, _, fits_looked n hno h honce.2, .same _⟩
  | .lookCond _ t y none, hapart, h, honce => by
    simp only [indices, gather_lookCond_none, captureIndex, List.nil_append] at hapart
    simp only [lookedGroups, gather_lookCond_none, lookedIndices, List.mem_append] at h
    simp only [revisitedGroups, gather_lookCond_none, revisitedIndices, List.nil_append,
      List.mem_append, not_or] at honce
    obtain ⟨htest, hyes, hne⟩ := hapart.append group
    by_cases hmem : group ∈ t.indices
    · obtain ⟨e, e', hbody, hthrough⟩ := fits_around htest fun h => fits_looked t htest h honce.1
      exact ⟨e, e', .behind, hbody, hthrough, fits_apart y .behind hyes.1 (hne hmem), .same _⟩
    · have hlooked : group ∈ y.lookedGroups := by
        rcases h with h | h | h
        · exact absurd h hmem
        · exact absurd (mem_indices_of_looked t h) hmem
        · exact h
      exact ⟨.behind, .behind, .ahead, fits_apart t .behind htest.1 hmem, .apart _,
        fits_looked y hyes hlooked honce.2, .passes⟩
  | .lookCond _ t y (some n), hapart, h, honce => by
    simp only [indices, gather_lookCond_some, captureIndex, List.nil_append] at hapart
    simp only [lookedGroups, gather_lookCond_some, lookedIndices, List.mem_append] at h
    simp only [revisitedGroups, gather_lookCond_some, revisitedIndices, List.nil_append,
      List.mem_append, not_or] at honce
    obtain ⟨htest, hbranches, hne⟩ := hapart.append group
    obtain ⟨hyes, hno, hne'⟩ := hbranches.append group
    by_cases hmem : group ∈ t.indices
    · obtain ⟨e, e', hbody, hthrough⟩ := fits_around htest fun h => fits_looked t htest h honce.1
      have hbranches := hne hmem
      rw [List.mem_append, not_or] at hbranches
      exact ⟨e, e', .behind, hbody, hthrough,
        ⟨_, fits_apart y .behind hyes.1 hbranches.1, .same _⟩, _,
        fits_apart n .behind hno.1 hbranches.2, .same _⟩
    · have htried := fits_apart t .behind htest.1 hmem
      rcases h with h | h | h | h
      · exact absurd h hmem
      · exact absurd (mem_indices_of_looked t h) hmem
      · have hno := fits_apart n .ahead hno.1 (hne' (mem_indices_of_looked y h))
        exact ⟨.behind, .behind, .ahead, htried, .apart _,
          ⟨_, fits_looked y hyes h honce.2.1, .same _⟩, _, hno, .passes⟩
      · have hyes := fits_apart y .ahead hyes.1 fun hmem => hne' hmem (mem_indices_of_looked n h)
        exact ⟨.behind, .behind, .ahead, htried, .apart _, ⟨_, hyes, .passes⟩, _,
          fits_looked n hno h honce.2.2, .same _⟩
  | .alt items, hapart, h, honce => by
    simp only [indices, gather_alt, captureIndex, List.nil_append] at hapart
    simp only [lookedGroups, gather_alt, lookedIndices, List.nil_append] at h
    simp only [revisitedGroups, gather_alt, revisitedIndices, List.nil_append] at honce
    exact ⟨fitsEach_looked items hapart h honce, .passes⟩
  | .concat items, hapart, h, honce => by
    simp only [indices, gather_concat, captureIndex, List.nil_append] at hapart
    simp only [lookedGroups, gather_concat, lookedIndices, List.nil_append] at h
    simp only [revisitedGroups, gather_concat, revisitedIndices, List.nil_append] at honce
    exact fitsAll_looked items hapart h honce
  | .empty, _, _, _ | .invalid, _, _, _ | .literal _, _, _, _ | .dot, _, _, _ | .cls _ _, _, _, _
  | .backref _, _, _, _ | .anchor _, _, _, _ | .boundary _, _, _, _ | .comment _, _, _, _
  | .options _, _, _, _ | .verb _, _, _, _ => Stage.Next.passes

theorem fitsEach_looked : (items : List Tree) → Apart (items.flatMap (gather captureIndex)) →
    group ∈ items.flatMap (gather lookedIndices) → group ∉ items.flatMap (gather revisitedIndices) →
      FitsEach group items .ahead .behind
  | [], _, _, _ => trivial
  | item :: rest, hapart, h, honce => by
    rw [List.flatMap_cons, List.mem_append] at h
    rw [List.flatMap_cons, List.mem_append, not_or] at honce
    obtain ⟨hitem, hrest, hne⟩ := hapart.append group
    rcases h with h | h
    · have hrest := fitsEach_apart rest .ahead hrest.1 (hne (mem_indices_of_looked item h))
      exact ⟨⟨_, fits_looked item hitem h honce.1, .same _⟩, hrest.next .passes⟩
    · have hitem := fits_apart item .ahead hitem.1 fun hmem =>
        hne hmem (mem_indices_of_looked_all rest h)
      exact ⟨⟨_, hitem, .passes⟩, fitsEach_looked rest hrest h honce.2⟩

theorem fitsAll_looked : (items : List Tree) → Apart (items.flatMap (gather captureIndex)) →
    group ∈ items.flatMap (gather lookedIndices) → group ∉ items.flatMap (gather revisitedIndices) →
      FitsAll group items .ahead .behind
  | [], _, _, _ => Stage.Next.passes
  | item :: rest, hapart, h, honce => by
    rw [List.flatMap_cons, List.mem_append] at h
    rw [List.flatMap_cons, List.mem_append, not_or] at honce
    obtain ⟨hitem, hrest, hne⟩ := hapart.append group
    rcases h with h | h
    · have hrest := fitsAll_apart rest .behind hrest.1 (hne (mem_indices_of_looked item h))
      exact ⟨_, fits_looked item hitem h honce.1, hrest⟩
    · have hitem := fits_apart item .ahead hitem.1 fun hmem =>
        hne hmem (mem_indices_of_looked_all rest h)
      exact ⟨_, hitem, fitsAll_looked rest hrest h honce.2⟩

end

/-- A group that is not in a lookaround that is repeated is met outside of the group or ahead of the
lookaround. -/
theorem exists_fits {t : Tree} (hapart : Apart t.indices) (h : group ∉ t.revisitedGroups) :
    ∃ y z, t.Fits group y z ∧ (y = .outside ∨ y = .ahead) := by
  by_cases hlooked : group ∈ t.lookedGroups
  · exact ⟨.ahead, .behind, fits_looked t hapart hlooked h, .inr rfl⟩
  · exact ⟨.outside, .outside, fits_level t hapart hlooked, .inl rfl⟩

end Tree

/-- A tree that was read may be entered outside of the groups that stand in no repeated lookaround,
or ahead of them. -/
theorem SyntaxTree.exists_fits_parse {source : List Char} {flags : Flags} {maxDepth group : Nat}
    {tree : SyntaxTree} (h : parse source flags maxDepth = .ok tree)
    (hgroup : group ∉ tree.root.revisitedGroups) :
    ∃ y z, y ≠ .within ∧ tree.root.Fits group y z := by
  obtain ⟨count, hcount⟩ := indices_parse h
  obtain ⟨y, z, hfits, hy⟩ := Tree.exists_fits (hcount ▸ Tree.apart_range' count) hgroup
  refine ⟨y, z, ?_, hfits⟩
  rcases hy with rfl | rfl <;> exact Stage.noConfusion

end RegexEngine
