import RegexEngine.Proofs.Program.Ways

/-!
Where the places of an automaton or a program stand with respect to one capture group. A group that
opens and closes along the way itself is entered at later and later places, so its slots stay in
order however often it comes round. A group in a lookaround opens and closes at other places than
the way stands at; its slots are in order as long as the lookaround is passed at most once, and the
places before it differ from those behind it.

A chart gives each place its stage. `Path.Progresses` says what a way may do to the slots of the
group between two places of a chart.
-/

namespace RegexEngine

/-! Slots of one group. -/

namespace Slots

variable {slots : Slots} {group other position : Nat}

theorem start?_openAt (slots : Slots) (group position : Nat) :
    (slots.openAt group position).start? group =
      if startSlot group < slots.length then some ((slots.start? group).getD position)
      else none := by
  unfold start? openAt
  rw [List.getElem?_modify_eq]
  split
  · rename_i hlt
    rw [List.getElem?_eq_getElem hlt]
    cases hslot : slots[startSlot group] <;> simp
  · rename_i hlt
    rw [List.getElem?_eq_none (by omega)]
    rfl

theorem start?_openAt_of_ne (hgroup : 0 < group) (hother : 0 < other) (hne : other ≠ group) :
    (slots.openAt other position).start? group = slots.start? group := by
  unfold start? openAt startSlot
  rw [List.getElem?_modify_ne _ _ (by omega)]

theorem stop?_openAt : (slots.openAt other position).stop? group = slots.stop? group := by
  unfold stop? openAt startSlot
  rw [List.getElem?_modify_ne _ _ (by omega)]

theorem start?_closeAt : (slots.closeAt other position).start? group = slots.start? group := by
  unfold start? closeAt startSlot
  rw [List.getElem?_set_ne (by omega)]

theorem stop?_closeAt (slots : Slots) (group position : Nat) :
    (slots.closeAt group position).stop? group =
      if startSlot group + 1 < slots.length then some position else none := by
  unfold stop? closeAt
  rw [List.getElem?_set_self']
  split
  · rename_i hlt
    rw [List.getElem?_eq_getElem hlt]
    rfl
  · rename_i hlt
    rw [List.getElem?_eq_none (by omega)]
    rfl

theorem stop?_closeAt_of_ne (hgroup : 0 < group) (hother : 0 < other) (hne : other ≠ group) :
    (slots.closeAt other position).stop? group = slots.stop? group := by
  unfold stop? closeAt startSlot
  rw [List.getElem?_set_ne (by omega)]

theorem stop?_of_length_le (h : slots.length ≤ startSlot group) : slots.stop? group = none := by
  unfold stop?
  rw [List.getElem?_eq_none (by omega)]
  rfl

/-- Where a group has both opened and closed, it did not close before it opened. -/
def Ordered (slots : Slots) (group : Nat) : Prop :=
  ∀ start stop, slots.start? group = some start → slots.stop? group = some stop → start ≤ stop

/-- The slots of a group are the same in both. -/
def SameAt (group : Nat) (slots slots' : Slots) : Prop :=
  slots'.start? group = slots.start? group ∧ slots'.stop? group = slots.stop? group ∧
    slots'.length = slots.length

theorem SameAt.refl (group : Nat) (slots : Slots) : SameAt group slots slots := ⟨rfl, rfl, rfl⟩

theorem SameAt.trans {first second third : Slots} (h : SameAt group first second)
    (h' : SameAt group second third) : SameAt group first third :=
  ⟨h'.1.trans h.1, h'.2.1.trans h.2.1, h'.2.2.trans h.2.2⟩

theorem sameAt_openAt (hgroup : 0 < group) (hother : 0 < other) (hne : other ≠ group) :
    SameAt group slots (slots.openAt other position) :=
  ⟨start?_openAt_of_ne hgroup hother hne, stop?_openAt, List.length_modify ..⟩

theorem sameAt_closeAt (hgroup : 0 < group) (hother : 0 < other) (hne : other ≠ group) :
    SameAt group slots (slots.closeAt other position) :=
  ⟨start?_closeAt, stop?_closeAt_of_ne hgroup hother hne, List.length_set ..⟩

end Slots

/-! Stages. -/

/-- Where a place stands with respect to a group. -/
inductive Stage
  /-- The lookaround with the group was not passed yet. -/
  | ahead
  /-- The group may open along the way, and is not open. -/
  | outside
  /-- The group is open. -/
  | within
  /-- The group opens no more. -/
  | behind
deriving DecidableEq

namespace Stage

/-- A way may go from one stage to another without opening or closing the group. -/
inductive Next : Stage → Stage → Prop
  | same (z : Stage) : Next z z
  | arrives : Next ahead outside
  | passes : Next ahead behind
  | leaves : Next within outside

theorem Next.trans {x y z : Stage} (h : x.Next y) (h' : y.Next z) : x.Next z := by
  cases h with
  | same => exact h'
  | arrives => cases h'; exact .arrives
  | passes => cases h'; exact .passes
  | leaves => cases h'; exact .leaves

theorem Next.eq_of_behind {z : Stage} (h : behind.Next z) : z = behind := by
  cases h
  rfl

theorem Next.eq_of_outside {z : Stage} (h : outside.Next z) : z = outside := by
  cases h
  rfl

theorem Next.ne_within {y z : Stage} (h : y.Next z) (hy : y ≠ within) : z ≠ within := by
  rintro rfl
  cases h
  exact hy rfl

/-- A place where the group may open and close along the way. -/
def IsLevel (z : Stage) : Prop := z = outside ∨ z = within

theorem Next.isLevel {y z : Stage} (h : y.Next z) (hy : y.IsLevel) : z.IsLevel := by
  rcases hy with rfl | rfl
  · cases h
    exact .inl rfl
  · cases h
    · exact .inr rfl
    · exact .inl rfl

/-- How a body is passed: entered at the second stage from the first, and left to the third. Only
the body of an atomic group may have the group along the way. -/
inductive Through (atomic : Bool) : Stage → Stage → Stage → Prop
  | apart (z : Stage) : Through atomic z behind z
  | around {e : Stage} : e ≠ within → Through atomic ahead e behind
  | level : atomic = true → Through atomic outside outside outside

theorem Through.next {atomic : Bool} {x e e' z : Stage} (h : Through atomic x e z)
    (he : e.Next e') : Through atomic x e' z := by
  cases h with
  | apart =>
    rw [he.eq_of_behind]
    exact .apart x
  | around hne => exact .around (he.ne_within hne)
  | level hatomic =>
    cases he
    exact .level hatomic

/-- What is known of the slots of a group at a stage. -/
def Holds (group position : Nat) (slots : Slots) : Stage → Prop
  | ahead => slots.start? group = none ∧ slots.stop? group = none
  | outside => slots.Ordered group ∧ (∀ start, slots.start? group = some start → start ≤ position) ∧
      (slots.start? group = none → slots.stop? group = none)
  | within => slots.Ordered group ∧ (∀ start, slots.start? group = some start → start ≤ position) ∧
      (slots.start? group = none → slots.length ≤ Slots.startSlot group)
  | behind => slots.Ordered group

theorem Through.next_of_look {x e z : Stage} (h : Through false x e z) : x.Next z := by
  cases h with
  | apart => exact .same _
  | around _ => exact .passes
  | level h => cases h

variable {group position further : Nat} {slots slots' : Slots} {y z : Stage}

theorem Holds.ordered (h : z.Holds group position slots) : slots.Ordered group := by
  cases z with
  | ahead =>
    intro start stop hstart
    rw [h.1] at hstart
    cases hstart
  | outside => exact h.1
  | within => exact h.1
  | behind => exact h

theorem Holds.next (h : y.Holds group position slots) (hnext : y.Next z) :
    z.Holds group position slots := by
  cases hnext with
  | same => exact h
  | arrives =>
    refine ⟨h.ordered, ?_, fun _ => h.2⟩
    intro start hstart
    rw [h.1] at hstart
    cases hstart
  | passes => exact h.ordered
  | leaves => exact ⟨h.1, h.2.1, fun hstart => Slots.stop?_of_length_le (h.2.2 hstart)⟩

theorem Holds.sameAt (h : z.Holds group position slots) (hsame : Slots.SameAt group slots slots')
    (hle : position ≤ further) : z.Holds group further slots' := by
  obtain ⟨hstart, hstop, hlength⟩ := hsame
  have hordered : slots.Ordered group → slots'.Ordered group := by
    simp only [Slots.Ordered, hstart, hstop]
    exact id
  cases z with
  | ahead => exact ⟨hstart.trans h.1, hstop.trans h.2⟩
  | outside =>
    refine ⟨hordered h.1, ?_, ?_⟩
    · intro start hsome
      exact Nat.le_trans (h.2.1 start (hstart ▸ hsome)) hle
    · intro hnone
      exact hstop.trans (h.2.2 (hstart ▸ hnone))
  | within =>
    refine ⟨hordered h.1, ?_, ?_⟩
    · intro start hsome
      exact Nat.le_trans (h.2.1 start (hstart ▸ hsome)) hle
    · intro hnone
      rw [hlength]
      exact h.2.2 (hstart ▸ hnone)
  | behind => exact hordered h

theorem Holds.later (h : z.Holds group position slots) (hle : position ≤ further) :
    z.Holds group further slots :=
  h.sameAt (.refl group slots) hle

/-- Opening a group where it is not open opens it. -/
theorem Holds.openAt (h : outside.Holds group position slots) :
    outside.Holds group position (slots.openAt group position) ∧
      within.Holds group position (slots.openAt group position) := by
  obtain ⟨hordered, hle, hnone⟩ := h
  have hopen := Slots.start?_openAt slots group position
  have hstop : (slots.openAt group position).stop? group = slots.stop? group := Slots.stop?_openAt
  have hlength : (slots.openAt group position).length = slots.length := List.length_modify ..
  have hstarts : ∀ start, (slots.openAt group position).start? group = some start →
      slots.start? group = some start ∨ slots.start? group = none ∧ start = position := by
    intro start hstart
    rw [hopen] at hstart
    split at hstart
    · cases hbefore : slots.start? group with
      | none => exact .inr ⟨rfl, by simpa [hbefore] using hstart.symm⟩
      | some before => exact .inl (by simpa [hbefore] using hstart)
    · cases hstart
  have hordered' : (slots.openAt group position).Ordered group := by
    intro start stop hstart hsome
    rw [hstop] at hsome
    rcases hstarts start hstart with hbefore | ⟨hbefore, _⟩
    · exact hordered start stop hbefore hsome
    · rw [hnone hbefore] at hsome
      cases hsome
  have hle' : ∀ start, (slots.openAt group position).start? group = some start →
      start ≤ position := by
    intro start hstart
    rcases hstarts start hstart with hbefore | ⟨_, rfl⟩
    · exact hle start hbefore
    · exact Nat.le_refl _
  have hshort : (slots.openAt group position).start? group = none →
      slots.length ≤ Slots.startSlot group := by
    intro hclosed
    rw [hopen] at hclosed
    split at hclosed
    · cases hclosed
    · omega
  refine ⟨⟨hordered', hle', fun hclosed => ?_⟩, hordered', hle', fun hclosed => ?_⟩
  · rw [hstop]
    exact Slots.stop?_of_length_le (hshort hclosed)
  · rw [hlength]
    exact hshort hclosed

/-- Closing a group where it is open leaves it in order. -/
theorem Holds.closeAt (h : within.Holds group position slots) :
    within.Holds group position (slots.closeAt group position) := by
  obtain ⟨_, hle, hnone⟩ := h
  have hstart : (slots.closeAt group position).start? group = slots.start? group :=
    Slots.start?_closeAt
  refine ⟨?_, ?_, ?_⟩
  · intro start stop hsome hstop
    rw [Slots.stop?_closeAt] at hstop
    split at hstop
    · cases hstop
      exact hle start (hstart ▸ hsome)
    · cases hstop
  · intro start hsome
    exact hle start (hstart ▸ hsome)
  · intro hclosed
    rw [Slots.closeAt, List.length_set]
    exact hnone (hstart ▸ hclosed)

end Stage

/-! Ways between the places of a chart. -/

namespace Path

/-- A path leads to another one as the stages of their places allow. -/
structure Progresses (group : Nat) (chart : Nat → Stage) (path next : Path) : Prop where
  position_le : path.position ≤ next.position
  holds : (chart path.place).Holds group path.position path.slots →
    (chart next.place).Holds group next.position next.slots
  level : (chart path.place).IsLevel → (chart next.place).IsLevel
  behind : chart path.place = .behind →
    chart next.place = .behind ∧ Slots.SameAt group path.slots next.slots

variable {group : Nat} {chart : Nat → Stage} {path next last : Path}

theorem Progresses.trans (h : path.Progresses group chart next)
    (h' : next.Progresses group chart last) : path.Progresses group chart last := by
  refine ⟨Nat.le_trans h.position_le h'.position_le, fun hholds => h'.holds (h.holds hholds),
    fun hlevel => h'.level (h.level hlevel), fun hbehind => ?_⟩
  obtain ⟨hnext, hsame⟩ := h.behind hbehind
  obtain ⟨hlast, hsame'⟩ := h'.behind hnext
  exact ⟨hlast, hsame.trans hsame'⟩

/-- A way that leaves the slots of the group alone may go to the stages that come next. -/
theorem Progresses.of_sameAt (hle : path.position ≤ next.position)
    (hnext : (chart path.place).Next (chart next.place))
    (hsame : Slots.SameAt group path.slots next.slots) : path.Progresses group chart next := by
  refine ⟨hle, fun hholds => (hholds.next hnext).sameAt hsame hle, hnext.isLevel, fun hbehind => ?_⟩
  rw [hbehind] at hnext
  exact ⟨hnext.eq_of_behind, hsame⟩

theorem Progresses.refl (path : Path) : path.Progresses group chart path :=
  .of_sameAt (Nat.le_refl _) (.same _) (.refl _ _)

theorem chains_progresses (group : Nat) (chart : Nat → Stage) :
    Chains (Progresses group chart) where
  refl := .refl
  trans := .trans
  entered _ := .of_sameAt (Nat.le_refl _) (.same _) (.refl _ _)

/-- A way that opens the group. -/
theorem Progresses.of_openAt (hle : path.position ≤ next.position)
    (hpath : chart path.place = .outside) (hnext : (chart next.place).IsLevel)
    (hslots : next.slots = path.slots.openAt group path.position) :
    path.Progresses group chart next := by
  refine ⟨hle, fun hholds => ?_, fun _ => hnext, fun hbehind => ?_⟩
  · rw [hpath] at hholds
    rw [hslots]
    rcases hnext with hnext | hnext
    · rw [hnext]
      exact hholds.openAt.1.later hle
    · rw [hnext]
      exact hholds.openAt.2.later hle
  · rw [hpath] at hbehind
    cases hbehind

/-- A way that closes the group. -/
theorem Progresses.of_closeAt (hle : path.position ≤ next.position)
    (hpath : chart path.place = .within) (hnext : Stage.within.Next (chart next.place))
    (hslots : next.slots = path.slots.closeAt group path.position) :
    path.Progresses group chart next := by
  refine ⟨hle, fun hholds => ?_, fun _ => hnext.isLevel (.inr rfl), fun hbehind => ?_⟩
  · rw [hpath] at hholds
    rw [hslots]
    exact (hholds.closeAt.next hnext).later hle
  · rw [hpath] at hbehind
    cases hbehind

/-- A way with the slots that a body leaves, from the place where the body ended or from where the
way waited. The body was tried from where the way waited or before that. -/
theorem Progresses.of_body {body : Body} {tried : Nat} {f : Found} {atomic : Bool} {z : Stage}
    (hthrough : Stage.Through atomic (chart path.place) (chart body.start) z)
    (hatomic : atomic = true → tried = path.position ∧ f.stop ≤ next.position)
    (hfound : (body.origin path tried).EndsAs (Progresses group chart) f.stop f.slots)
    (hle : path.position ≤ next.position) (hslots : next.slots = f.slots)
    (hnext : z.Next (chart next.place)) : path.Progresses group chart next := by
  obtain ⟨last, hlast, hstop, hends⟩ := hfound
  rw [← hends] at hslots
  generalize hpath : chart path.place = y at hthrough
  generalize hbody : chart body.start = e at hthrough
  cases hthrough with
  | apart =>
    have hsame := (hlast.behind hbody).2
    rw [← hpath] at hnext
    exact .of_sameAt hle hnext (hslots ▸ hsame)
  | around hne =>
    have horigin (hholds : Stage.ahead.Holds group tried path.slots) :
        (chart body.start).Holds group tried path.slots := by
      rw [hbody]
      apply hholds.next
      cases e with
      | ahead => exact .same _
      | outside => exact .arrives
      | within => exact absurd rfl hne
      | behind => exact .passes
    refine ⟨hle, fun hholds => ?_, fun hlevel => ?_, fun hbehind => ?_⟩
    · rw [hpath] at hholds
      rw [hnext.eq_of_behind, hslots]
      exact (hlast.holds (horigin hholds)).ordered
    · rw [hpath] at hlevel
      rcases hlevel with h | h
      · cases h
      · cases h
    · rw [hpath] at hbehind
      cases hbehind
  | level ha =>
    obtain ⟨htried, hstopped⟩ := hatomic ha
    have houtside : chart next.place = .outside := hnext.eq_of_outside
    refine ⟨hle, fun hholds => ?_, fun _ => .inl houtside, fun hbehind => ?_⟩
    · rw [hpath] at hholds
      have horigin : (chart body.start).Holds group tried path.slots := by
        rw [hbody, htried]
        exact hholds
      have hends := (hlast.holds horigin).later (Nat.le_trans (Nat.le_of_eq hstop) hstopped)
      rw [houtside, hslots]
      rcases hlast.level (.inl hbody) with hlevel | hlevel
      · rw [hlevel] at hends
        exact hends
      · rw [hlevel] at hends
        exact hends.next .leaves
    · rw [hpath] at hbehind
      cases hbehind

/-- A way that goes on after a lookaround whose body was passed as it may be. -/
theorem Progresses.of_looked {kind : LookKind} (body : Body) {tried : Nat}
    {found : Option Found} {z : Stage}
    (h : Stage.Through false (chart path.place) (chart body.start) z)
    (hfound : Found.Follows (Progresses group chart) (body.origin path tried) found)
    (hlooked : State.looked? kind path found = some last) (hle : path.position ≤ next.position)
    (hslots : next.slots = last.slots) (hnext : z.Next (chart next.place)) :
    path.Progresses group chart next := by
  cases found with
  | none =>
    simp only [State.looked?] at hlooked
    split at hlooked
    · cases hlooked
      exact .of_sameAt hle (h.next_of_look.trans hnext) (hslots ▸ .refl group _)
    · cases hlooked
  | some f =>
    simp only [State.looked?] at hlooked
    split at hlooked
    · cases hlooked
    · cases hlooked
      exact .of_body h (fun h => by cases h) (hfound f rfl) hle hslots hnext

end Path

end RegexEngine
