import Mathlib.Data.List.Sort
import RegexEngine.Automaton.Determinize
import RegexEngine.Proofs.CharClass.Escape
import RegexEngine.Proofs.CharRanges.Normal

/-!
The intervals that the ranges of some edges cut the alphabet into. No range begins or ends inside of
an interval, so an edge takes all code points of an interval or none, and every character that some
edge takes is in an interval. Grouping intervals by their targets therefore answers, for each
character, with the targets of exactly the edges that take it.
-/

namespace RegexEngine

open CharRanges

/-! Sorted lists without repetitions. -/

theorem mem_dropRepeats (numbers : List Nat) (n : Nat) : n ∈ dropRepeats numbers ↔ n ∈ numbers := by
  fun_induction dropRepeats numbers with
  | case1 => rfl
  | case2 m => rfl
  | case3 m rest ih => simp [ih]
  | case4 m k rest hne ih => simp [ih]

theorem dropRepeats_ascends {numbers : List Nat} (h : numbers.Pairwise (· ≤ ·)) :
    (dropRepeats numbers).Pairwise (· < ·) := by
  fun_induction dropRepeats numbers with
  | case1 => exact .nil
  | case2 m => exact List.pairwise_singleton _ _
  | case3 m rest ih => exact ih (List.pairwise_cons.mp h).2
  | case4 m k rest hne ih =>
    obtain ⟨hfirst, hrest⟩ := List.pairwise_cons.mp h
    refine List.pairwise_cons.mpr ⟨?_, ih hrest⟩
    intro n hn
    have hlt : m < k := Nat.lt_of_le_of_ne (hfirst k List.mem_cons_self) hne
    rcases List.mem_cons.mp ((mem_dropRepeats _ n).mp hn) with rfl | hn
    · exact hlt
    · exact Nat.lt_of_lt_of_le hlt ((List.pairwise_cons.mp hrest).1 n hn)

theorem mem_ascending (numbers : List Nat) (n : Nat) : n ∈ ascending numbers ↔ n ∈ numbers := by
  rw [ascending, mem_dropRepeats, List.mem_mergeSort]

theorem ascending_ascends (numbers : List Nat) : (ascending numbers).Pairwise (· < ·) :=
  dropRepeats_ascends (List.pairwise_mergeSort' (· ≤ ·) numbers)

/-! Intervals between neighbouring points. -/

/-- An interval between two neighbours among some points. -/
structure Gap (points : List Nat) (interval : Nat × Nat) : Prop where
  starts : interval.1 ∈ points
  stops : interval.2 + 1 ∈ points
  proper : interval.1 ≤ interval.2
  outside : ∀ p ∈ points, p ≤ interval.1 ∨ interval.2 < p

theorem gap_of_cons {p : Nat} {points : List Nat} (h : (p :: points).Pairwise (· < ·))
    {interval : Nat × Nat} (hgap : Gap points interval) : Gap (p :: points) interval := by
  refine ⟨List.mem_cons_of_mem _ hgap.starts, List.mem_cons_of_mem _ hgap.stops, hgap.proper, ?_⟩
  intro q hq
  rcases List.mem_cons.mp hq with rfl | hq
  · exact .inl (Nat.le_of_lt ((List.pairwise_cons.mp h).1 _ hgap.starts))
  · exact hgap.outside q hq

theorem gap_first {lo next : Nat} {rest : List Nat} (h : (lo :: next :: rest).Pairwise (· < ·)) :
    Gap (lo :: next :: rest) (lo, next - 1) := by
  obtain ⟨hfirst, hrest⟩ := List.pairwise_cons.mp h
  have hlt : lo < next := hfirst next List.mem_cons_self
  refine ⟨List.mem_cons_self, ?_, by dsimp only; omega, ?_⟩
  · have hnext : next - 1 + 1 = next := by omega
    dsimp only
    rw [hnext]
    exact List.mem_cons_of_mem _ List.mem_cons_self
  · intro q hq
    dsimp only
    rcases List.mem_cons.mp hq with rfl | hq
    · exact .inl (Nat.le_refl _)
    · rcases List.mem_cons.mp hq with rfl | hq
      · omega
      · have hlater := (List.pairwise_cons.mp hrest).1 q hq
        omega

theorem gap_of_mem {points : List Nat} (h : points.Pairwise (· < ·)) {interval : Nat × Nat}
    (hmem : interval ∈ intervalsBetween points) :
    Gap points interval ∧ (charOfCode? interval.1).isSome = true := by
  fun_induction intervalsBetween points with
  | case1 lo next rest others hchar ih =>
    rcases List.mem_cons.mp hmem with rfl | hmem
    · exact ⟨gap_first h, hchar⟩
    · obtain ⟨hgap, hsome⟩ := ih (List.pairwise_cons.mp h).2 hmem
      exact ⟨gap_of_cons h hgap, hsome⟩
  | case2 lo next rest others hchar ih =>
    obtain ⟨hgap, hsome⟩ := ih (List.pairwise_cons.mp h).2 hmem
    exact ⟨gap_of_cons h hgap, hsome⟩
  | case3 points => cases hmem

/-- A number between two points is in the interval of two neighbours. The interval is listed if it
starts with a character. -/
theorem exists_gap {points : List Nat} (h : points.Pairwise (· < ·)) {p q n : Nat}
    (hp : p ∈ points) (hq : q ∈ points) (hle : p ≤ n) (hlt : n < q) :
    ∃ interval, Gap points interval ∧ interval.1 ≤ n ∧ n ≤ interval.2 ∧
      ((charOfCode? interval.1).isSome = true → interval ∈ intervalsBetween points) := by
  induction points generalizing p with
  | nil => cases hp
  | cons lo points ih =>
    cases points with
    | nil =>
      obtain rfl := List.mem_singleton.mp hp
      obtain rfl := List.mem_singleton.mp hq
      omega
    | cons next rest =>
      obtain ⟨hfirst, hrest⟩ := List.pairwise_cons.mp h
      by_cases hnext : n < next
      · have hlo : lo ≤ n := by
          rcases List.mem_cons.mp hp with rfl | hp
          · exact hle
          · exact Nat.le_trans (Nat.le_of_lt (hfirst p hp)) hle
        refine ⟨(lo, next - 1), gap_first h, hlo, by dsimp only; omega, fun hchar => ?_⟩
        rw [intervalsBetween, if_pos hchar]
        exact List.mem_cons_self
      · have hq : q ∈ next :: rest := by
          rcases List.mem_cons.mp hq with rfl | hq
          · have hstart := hfirst next List.mem_cons_self
            omega
          · exact hq
        obtain ⟨interval, hgap, hlo, hhi, hlisted⟩ :=
          ih hrest List.mem_cons_self hq (Nat.le_of_not_lt hnext)
        refine ⟨interval, gap_of_cons h hgap, hlo, hhi, fun hchar => ?_⟩
        rw [intervalsBetween]
        split
        · exact List.mem_cons_of_mem _ (hlisted hchar)
        · exact hlisted hchar

/-! Intervals of edges. -/

theorem mem_cutPoints {edges : List Edge} {e : Edge} (he : e ∈ edges) {p : Nat × Nat}
    (hp : p ∈ e.ranges.pairs) : p.1 ∈ cutPoints edges ∧ p.2 + 1 ∈ cutPoints edges := by
  simp only [cutPoints, mem_ascending, List.mem_flatMap]
  exact ⟨⟨e, he, p, hp, by simp⟩, ⟨e, he, p, hp, by simp⟩⟩

theorem of_mem_cutPoints {edges : List Edge} {n : Nat} (h : n ∈ cutPoints edges) :
    ∃ e ∈ edges, ∃ p ∈ e.ranges.pairs, n = p.1 ∨ n = p.2 + 1 := by
  simp only [cutPoints, mem_ascending, List.mem_flatMap] at h
  obtain ⟨e, he, p, hp, hn⟩ := h
  exact ⟨e, he, p, hp, by simpa using hn⟩

/-- An edge takes all code points between two neighbouring cuts, or none of them. -/
theorem Gap.covers_iff {edges : List Edge} {interval : Nat × Nat}
    (h : Gap (cutPoints edges) interval) {e : Edge} (he : e ∈ edges) {n : Nat}
    (hlo : interval.1 ≤ n) (hhi : n ≤ interval.2) :
    Covers e.ranges.pairs n ↔ Covers e.ranges.pairs interval.1 := by
  constructor
  · rintro ⟨p, hp, hfirst, hlast⟩
    rcases h.outside p.1 (mem_cutPoints he hp).1 with hcut | hcut
    · exact ⟨p, hp, hcut, Nat.le_trans hlo hlast⟩
    · omega
  · rintro ⟨p, hp, hfirst, hlast⟩
    rcases h.outside (p.2 + 1) (mem_cutPoints he hp).2 with hcut | hcut
    · omega
    · exact ⟨p, hp, Nat.le_trans hfirst hlo, by omega⟩

/-- The targets of the edges that take a code point. -/
def targetsAt (edges : List Edge) (n : Nat) : List Nat :=
  ascending ((edges.filter fun e => e.ranges.containsCode n).map (·.target))

theorem mem_targetsAt {edges : List Edge} {n t : Nat} :
    t ∈ targetsAt edges n ↔ ∃ e ∈ edges, Covers e.ranges.pairs n ∧ e.target = t := by
  simp only [targetsAt, mem_ascending, List.mem_map, List.mem_filter, containsCode_iff, and_assoc]

theorem isEmpty_hit_iff (edges : List Edge) (n : Nat) :
    (edges.filter fun e => e.ranges.containsCode n).isEmpty = true ↔ targetsAt edges n = [] := by
  simp only [List.isEmpty_iff, List.eq_nil_iff_forall_not_mem, mem_targetsAt, List.mem_filter,
    containsCode_iff]
  constructor
  · rintro hnone t ⟨e, he, hcovers, _⟩
    exact hnone e ⟨he, hcovers⟩
  · rintro hnone e ⟨he, hcovers⟩
    exact hnone e.target ⟨e, he, hcovers, rfl⟩

theorem Gap.targetsAt_eq {edges : List Edge} {interval : Nat × Nat}
    (h : Gap (cutPoints edges) interval) {n : Nat} (hlo : interval.1 ≤ n)
    (hhi : n ≤ interval.2) : targetsAt edges n = targetsAt edges interval.1 := by
  unfold targetsAt
  congr 2
  refine List.filter_congr fun e he => ?_
  rw [Bool.eq_iff_iff, containsCode_iff, containsCode_iff]
  exact h.covers_iff he hlo hhi

/-! Groups of intervals. -/

section Groups

variable {κ : Type} [BEq κ] [LawfulBEq κ] {key : κ} {interval : Nat × Nat}

theorem keys_addToGroup (groups : List (κ × List (Nat × Nat))) :
    ((addToGroup key interval groups).map (·.1) = groups.map (·.1) ∧ key ∈ groups.map (·.1)) ∨
      ((addToGroup key interval groups).map (·.1) = groups.map (·.1) ++ [key] ∧
        key ∉ groups.map (·.1)) := by
  induction groups with
  | nil => exact .inr ⟨rfl, List.not_mem_nil⟩
  | cons group rest ih =>
    obtain ⟨other, found⟩ := group
    rw [addToGroup]
    by_cases heq : other = key
    · subst heq
      exact .inl ⟨by simp, by simp⟩
    · rw [if_neg (by simpa using heq)]
      rcases ih with ⟨hkeys, hmem⟩ | ⟨hkeys, hnew⟩
      · exact .inl ⟨by simp [hkeys], List.mem_cons_of_mem _ hmem⟩
      · refine .inr ⟨by simp [hkeys], ?_⟩
        rw [List.map_cons, List.mem_cons, not_or]
        exact ⟨Ne.symm heq, hnew⟩

/-- Every group was there before, except that the interval was added to the group of its key. -/
theorem mem_addToGroup {groups : List (κ × List (Nat × Nat))} {group : κ × List (Nat × Nat)}
    (h : group ∈ addToGroup key interval groups) :
    group ∈ groups ∨ (group.1 = key ∧ interval ∈ group.2 ∧ ∀ i ∈ group.2, i = interval ∨
      ∃ found, (key, found) ∈ groups ∧ i ∈ found) := by
  induction groups with
  | nil =>
    obtain rfl := List.mem_singleton.mp h
    exact .inr ⟨rfl, List.mem_singleton_self _, fun i hi => .inl (List.mem_singleton.mp hi)⟩
  | cons first rest ih =>
    obtain ⟨other, found⟩ := first
    rw [addToGroup] at h
    by_cases heq : other = key
    · subst heq
      rw [if_pos (by simp)] at h
      rcases List.mem_cons.mp h with rfl | h
      · refine .inr ⟨rfl, by simp, fun i hi => ?_⟩
        rcases List.mem_append.mp hi with hi | hi
        · exact .inr ⟨found, List.mem_cons_self, hi⟩
        · exact .inl (List.mem_singleton.mp hi)
      · exact .inl (List.mem_cons_of_mem _ h)
    · rw [if_neg (by simpa using heq)] at h
      rcases List.mem_cons.mp h with rfl | h
      · exact .inl List.mem_cons_self
      · rcases ih h with h | ⟨hkey, hself, hall⟩
        · exact .inl (List.mem_cons_of_mem _ h)
        · refine .inr ⟨hkey, hself, fun i hi => ?_⟩
          rcases hall i hi with rfl | ⟨found, hfound, hi⟩
          · exact .inl rfl
          · exact .inr ⟨found, List.mem_cons_of_mem _ hfound, hi⟩

theorem exists_addToGroup_self (groups : List (κ × List (Nat × Nat))) :
    ∃ found, (key, found) ∈ addToGroup key interval groups ∧ interval ∈ found := by
  induction groups with
  | nil => exact ⟨[interval], List.mem_singleton_self _, List.mem_singleton_self _⟩
  | cons first rest ih =>
    obtain ⟨other, found⟩ := first
    rw [addToGroup]
    by_cases heq : other = key
    · subst heq
      rw [if_pos (by simp)]
      exact ⟨_, List.mem_cons_self, by simp⟩
    · rw [if_neg (by simpa using heq)]
      obtain ⟨found, hfound, hmem⟩ := ih
      exact ⟨found, List.mem_cons_of_mem _ hfound, hmem⟩

/-- No interval leaves its group. -/
theorem exists_addToGroup {groups : List (κ × List (Nat × Nat))} {other : κ}
    {found : List (Nat × Nat)} (h : (other, found) ∈ groups) {i : Nat × Nat} (hi : i ∈ found) :
    ∃ more, (other, more) ∈ addToGroup key interval groups ∧ i ∈ more := by
  induction groups with
  | nil => cases h
  | cons first rest ih =>
    obtain ⟨head, members⟩ := first
    rw [addToGroup]
    by_cases heq : head = key
    · rw [if_pos (by simpa using heq)]
      rcases List.mem_cons.mp h with h | h
      · cases h
        exact ⟨_, List.mem_cons_self, List.mem_append_left _ hi⟩
      · exact ⟨found, List.mem_cons_of_mem _ h, hi⟩
    · rw [if_neg (by simpa using heq)]
      rcases List.mem_cons.mp h with h | h
      · cases h
        exact ⟨_, List.mem_cons_self, hi⟩
      · obtain ⟨more, hmore, hmem⟩ := ih h
        exact ⟨more, List.mem_cons_of_mem _ hmore, hmem⟩

end Groups

/-- Intervals grouped by the targets of the edges that take them. Each group has intervals that were
given, each interval that some edge takes is in a group, and no two groups have the same targets. -/
structure Grouped (edges : List Edge) (given : List (Nat × Nat))
    (groups : List (List Nat × List (Nat × Nat))) : Prop where
  distinct : (groups.map (·.1)).Nodup
  sound : ∀ group ∈ groups, group.2 ≠ [] ∧ group.1 ≠ [] ∧
    ∀ i ∈ group.2, i ∈ given ∧ group.1 = targetsAt edges i.1
  complete : ∀ i ∈ given, targetsAt edges i.1 ≠ [] → ∃ group ∈ groups, i ∈ group.2

theorem Grouped.skip {edges : List Edge} {given : List (Nat × Nat)}
    {groups : List (List Nat × List (Nat × Nat))} (h : Grouped edges given groups)
    {i : Nat × Nat} (hi : targetsAt edges i.1 = []) : Grouped edges (given ++ [i]) groups := by
  refine ⟨h.distinct, fun group hgroup => ?_, fun j hj htargets => ?_⟩
  · obtain ⟨hne, htargets, hall⟩ := h.sound group hgroup
    exact ⟨hne, htargets, fun j hj => ⟨List.mem_append_left _ (hall j hj).1, (hall j hj).2⟩⟩
  · rcases List.mem_append.mp hj with hj | hj
    · exact h.complete j hj htargets
    · obtain rfl := List.mem_singleton.mp hj
      exact absurd hi htargets

theorem Grouped.add {edges : List Edge} {given : List (Nat × Nat)}
    {groups : List (List Nat × List (Nat × Nat))} (h : Grouped edges given groups)
    {i : Nat × Nat} (hi : targetsAt edges i.1 ≠ []) :
    Grouped edges (given ++ [i]) (addToGroup (targetsAt edges i.1) i groups) := by
  refine ⟨?_, fun group hgroup => ?_, fun j hj htargets => ?_⟩
  · rcases @keys_addToGroup _ _ _ (targetsAt edges i.1) i groups with ⟨hkeys, _⟩ | ⟨hkeys, hnew⟩
    · rw [hkeys]
      exact h.distinct
    · rw [hkeys]
      exact List.nodup_append.mpr ⟨h.distinct, List.pairwise_singleton _ _, by
        intro a ha b hb heq
        obtain rfl := List.mem_singleton.mp hb
        exact hnew (heq ▸ ha)⟩
  · rcases mem_addToGroup hgroup with hgroup | ⟨hkey, hself, hall⟩
    · obtain ⟨hne, htargets, hall⟩ := h.sound group hgroup
      exact ⟨hne, htargets, fun j hj => ⟨List.mem_append_left _ (hall j hj).1, (hall j hj).2⟩⟩
    · refine ⟨List.ne_nil_of_mem hself, hkey ▸ hi, fun j hj => ?_⟩
      rcases hall j hj with rfl | ⟨found, hfound, hj⟩
      · exact ⟨List.mem_append_right _ (List.mem_singleton_self _), hkey⟩
      · obtain ⟨hgiven, htargets⟩ := (h.sound _ hfound).2.2 j hj
        exact ⟨List.mem_append_left _ hgiven, hkey.trans htargets⟩
  · rcases List.mem_append.mp hj with hj | hj
    · obtain ⟨⟨key, found⟩, hgroup, hmem⟩ := h.complete j hj htargets
      obtain ⟨more, hmore, hmem⟩ :=
        @exists_addToGroup _ _ _ (targetsAt edges i.1) i groups key found hgroup j hmem
      exact ⟨(key, more), hmore, hmem⟩
    · obtain rfl := List.mem_singleton.mp hj
      obtain ⟨found, hfound, hmem⟩ := @exists_addToGroup_self _ _ _ (targetsAt edges j.1) j groups
      exact ⟨_, hfound, hmem⟩

namespace Automaton.Subsets

/-- The moves of some edges are their intervals, grouped by targets. -/
theorem moves_grouped (edges : List Edge) : Grouped edges (intervals edges) (moves edges) := by
  have hfold : ∀ (rest given : List (Nat × Nat)) (groups : List (List Nat × List (Nat × Nat))),
      Grouped edges given groups →
        Grouped edges (given ++ rest) (rest.foldl (fun groups interval =>
          let hit := edges.filter fun e => e.ranges.containsCode interval.1
          if hit.isEmpty then groups
          else addToGroup (ascending (hit.map (·.target))) interval groups) groups) := by
    intro rest
    induction rest with
    | nil =>
      intro given groups h
      simpa using h
    | cons i rest ih =>
      intro given groups h
      rw [List.foldl_cons, List.append_cons]
      refine ih _ _ ?_
      dsimp only
      split
      · rename_i hempty
        exact h.skip ((isEmpty_hit_iff edges i.1).mp hempty)
      · rename_i hhit
        exact h.add fun hnone => hhit ((isEmpty_hit_iff edges i.1).mpr hnone)
  have hnone : Grouped edges [] [] := ⟨.nil, by simp, by simp⟩
  exact hfold (intervals edges) [] [] hnone

variable {edges : List Edge} {group : List Nat × List (Nat × Nat)}

theorem gap_of_mem_moves (hgroup : group ∈ moves edges) {i : Nat × Nat} (hi : i ∈ group.2) :
    Gap (cutPoints edges) i ∧ (charOfCode? i.1).isSome = true :=
  gap_of_mem (ascending_ascends _) (((moves_grouped edges).sound group hgroup).2.2 i hi).1

/-- The intervals of a move are ranges of characters. -/
theorem normal_of_mem_moves (hnormal : ∀ e ∈ edges, Normal e.ranges.pairs)
    (hgroup : group ∈ moves edges) : Normal (ofPairs group.2).pairs := by
  refine normal_ofPairs fun i hi => ?_
  obtain ⟨e, he, p, hp, hstop⟩ := of_mem_cutPoints (gap_of_mem_moves hgroup hi).1.stops
  have hproper := (hnormal e he).proper p hp
  have hbounded := (hnormal e he).bounded p hp
  omega

/-- Some character is taken by a move. -/
theorem exists_char_of_mem_moves (hgroup : group ∈ moves edges) :
    ∃ c : Char, Covers (ofPairs group.2).pairs c.toNat := by
  obtain ⟨hne, _, _⟩ := (moves_grouped edges).sound group hgroup
  obtain ⟨i, hi⟩ := List.exists_mem_of_ne_nil _ hne
  obtain ⟨hgap, hchar⟩ := gap_of_mem_moves hgroup hi
  obtain ⟨c, hc⟩ := Option.isSome_iff_exists.mp hchar
  refine ⟨c, (covers_ofPairs _ _).mpr ⟨noSurrogate_toNat c, i, hi, ?_, ?_⟩⟩
  · exact Nat.le_of_eq (toNat_of_charOfCode? hc).symm
  · rw [toNat_of_charOfCode? hc]
    exact hgap.proper

theorem ofPairs_ne_nil_of_mem_moves (hgroup : group ∈ moves edges) :
    (ofPairs group.2).pairs ≠ [] := by
  obtain ⟨c, hcovers⟩ := exists_char_of_mem_moves hgroup
  intro hnil
  rw [hnil] at hcovers
  exact covers_nil _ hcovers

/-- What a move takes leads to its targets. -/
theorem targetsAt_of_covers (hgroup : group ∈ moves edges) {n : Nat}
    (hn : Covers (ofPairs group.2).pairs n) : targetsAt edges n = group.1 := by
  obtain ⟨_, i, hi, hlo, hhi⟩ := (covers_ofPairs group.2 n).mp hn
  obtain ⟨_, htargets⟩ := ((moves_grouped edges).sound group hgroup).2.2 i hi
  rw [(gap_of_mem_moves hgroup hi).1.targetsAt_eq hlo hhi, htargets]

/-- Every character that some edge takes is taken by a move. -/
theorem exists_move (hnormal : ∀ e ∈ edges, Normal e.ranges.pairs) {c : Char} {e : Edge}
    (he : e ∈ edges) (hc : Covers e.ranges.pairs c.toNat) :
    ∃ group ∈ moves edges, Covers (ofPairs group.2).pairs c.toNat := by
  obtain ⟨p, hp, hlo, hhi⟩ := hc
  obtain ⟨hstart, hstop⟩ := mem_cutPoints he hp
  obtain ⟨i, hgap, hfirst, hlast, hlisted⟩ :=
    exists_gap (ascending_ascends _) hstart hstop hlo (Nat.lt_succ_of_le hhi)
  have hcovers : Covers e.ranges.pairs i.1 :=
    (hgap.covers_iff he hfirst hlast).mp ⟨p, hp, hlo, hhi⟩
  have hchar : (charOfCode? i.1).isSome = true := by
    obtain ⟨hcode, hbound⟩ := (hnormal e he).isCode hcovers
    unfold NoSurrogate at hcode
    unfold charOfCode?
    rw [if_pos (by omega)]
    rfl
  have htargets : targetsAt edges i.1 ≠ [] :=
    List.ne_nil_of_mem (mem_targetsAt.mpr ⟨e, he, hcovers, rfl⟩)
  obtain ⟨group, hgroup, hi⟩ := (moves_grouped edges).complete i (hlisted hchar) htargets
  refine ⟨group, hgroup, (covers_ofPairs _ _).mpr ⟨noSurrogate_toNat c, i, hi, hfirst, hlast⟩⟩

end Automaton.Subsets

end RegexEngine
