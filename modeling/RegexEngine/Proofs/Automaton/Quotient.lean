import RegexEngine.Proofs.Automaton.MoveTable
import RegexEngine.Proofs.Automaton.Partition

/-!
The automaton whose states are blocks. A block accepts if its states do, and moves as they move,
since they agree on it; so any of them may speak for the block. Moves into blocks from which nothing
is accepted are left out, which changes nothing of what is accepted.
-/

namespace RegexEngine.Automaton

open CharRanges

/-! The first state of each block. -/

section Firsts

variable {α : Type}

/-- Keeps the first row of each number. -/
def firstRows (count : Nat) (rows : List (Nat × α)) : Array (Option α) :=
  rows.foldl (fun found (b, row) =>
    if found[b]?.join.isSome then found else found.setIfInBounds b (some row))
    (Array.replicate count none)

/-- One more row is kept if none was kept for its number. -/
theorem getElem?_keep {found : Array (Option α)} {other b : Nat} {row : α} :
    (if found[other]?.join.isSome then found else found.setIfInBounds other (some row))[b]?.join =
      if other = b ∧ b < found.size ∧ found[b]?.join = none then some row else found[b]?.join := by
  by_cases heq : other = b
  · subst heq
    by_cases hkept : found[other]?.join.isSome = true
    · rw [if_pos hkept, if_neg]
      rintro ⟨_, _, hnone⟩
      rw [hnone] at hkept
      cases hkept
    · rw [if_neg hkept, Array.getElem?_setIfInBounds, if_pos rfl]
      have hnone : found[other]?.join = none := by simpa using hkept
      by_cases hlt : other < found.size
      · rw [if_pos hlt, if_pos ⟨rfl, hlt, hnone⟩, Option.join_some]
      · rw [if_neg hlt, if_neg (fun h => hlt h.2.1), hnone, Option.join_none]
  · have hother : ¬ (other = b ∧ b < found.size ∧ found[b]?.join = none) := fun h => heq h.1
    rw [if_neg hother, apply_ite (fun found : Array (Option α) => found[b]?.join),
      Array.getElem?_setIfInBounds_ne heq, ite_self]

/-- What is kept for a number is one of its rows. -/
theorem mem_of_firstRows {count b : Nat} {rows : List (Nat × α)} {row : α}
    (h : (firstRows count rows)[b]?.join = some row) : (b, row) ∈ rows := by
  have hfold : ∀ (rest : List (Nat × α)) (found : Array (Option α)),
      (∀ row, found[b]?.join = some row → (b, row) ∈ rows) → (∀ r ∈ rest, r ∈ rows) →
        ∀ row, (rest.foldl (fun found (b, row) => if found[b]?.join.isSome then found
          else found.setIfInBounds b (some row)) found)[b]?.join = some row → (b, row) ∈ rows := by
    intro rest
    induction rest with
    | nil => exact fun _ hfound _ => hfound
    | cons first rest ih =>
      intro found hfound hrest
      rw [List.foldl_cons]
      refine ih _ (fun row hrow => ?_) fun r hr => hrest r (List.mem_cons_of_mem _ hr)
      rw [getElem?_keep] at hrow
      split at hrow
      · rename_i hnew
        obtain rfl := Option.some.inj hrow
        exact hnew.1 ▸ hrest first List.mem_cons_self
      · exact hfound row hrow
  refine hfold rows _ (fun row hrow => ?_) (fun _ hr => hr) row h
  rw [Array.getElem?_replicate] at hrow
  split at hrow <;> cases hrow

/-- Something is kept for every number that has a row. -/
theorem isSome_firstRows {count b : Nat} {rows : List (Nat × α)} (hb : b < count)
    (hrow : b ∈ rows.map (·.1)) : (firstRows count rows)[b]?.join.isSome = true := by
  have hfold : ∀ (rows : List (Nat × α)) (found : Array (Option α)), b < found.size →
      (found[b]?.join.isSome = true ∨ b ∈ rows.map (·.1)) →
        (rows.foldl (fun found (b, row) => if found[b]?.join.isSome then found
          else found.setIfInBounds b (some row)) found)[b]?.join.isSome = true := by
    intro rows
    induction rows with
    | nil => simp
    | cons first rest ih =>
      intro found hlt hsome
      obtain ⟨other, row⟩ := first
      rw [List.foldl_cons]
      refine ih _ ?_ ?_
      · rw [apply_ite Array.size, Array.size_setIfInBounds, ite_self]
        exact hlt
      · rw [getElem?_keep]
        split
        · exact .inl rfl
        · rename_i hold
          rcases hsome with hsome | hmem
          · exact .inl hsome
          · rcases List.mem_cons.mp hmem with heq | hmem
            · by_cases hnone : found[b]?.join = none
              · exact absurd ⟨heq.symm, hlt, hnone⟩ hold
              · exact .inl (Option.isSome_iff_ne_none.mpr hnone)
            · exact .inr hmem
  exact hfold rows _ (by simpa using hb) (.inr hrow)

end Firsts

/-! Moves grouped by the blocks that they lead to. -/

/-- Groups the intervals that lead to live blocks by these blocks. -/
def liveGroups (live : Nat → Bool) (moves : List (Option Nat × (Nat × Nat))) :
    List (Nat × List (Nat × Nat)) :=
  moves.foldl (fun groups (target, interval) =>
    match target with
    | some b => if live b then addToGroup b interval groups else groups
    | none => groups) []

/-- Each live block that some move leads to has one group, with the intervals of these moves. -/
structure GroupedLive (live : Nat → Bool) (moves : List (Option Nat × (Nat × Nat)))
    (groups : List (Nat × List (Nat × Nat))) : Prop where
  distinct : (groups.map (·.1)).Nodup
  sound : ∀ group ∈ groups, live group.1 = true ∧ group.2 ≠ [] ∧
    ∀ i ∈ group.2, (some group.1, i) ∈ moves
  complete : ∀ b i, (some b, i) ∈ moves → live b = true → ∃ group ∈ groups, group.1 = b ∧ i ∈ group.2

variable {live : Nat → Bool} {moves : List (Option Nat × (Nat × Nat))}
  {groups : List (Nat × List (Nat × Nat))}

/-- A move that leads to no live block changes nothing. -/
theorem GroupedLive.skip (h : GroupedLive live moves groups) {target : Option Nat}
    {interval : Nat × Nat} (hdead : ∀ b, target = some b → live b = false) :
    GroupedLive live (moves ++ [(target, interval)]) groups := by
  refine ⟨h.distinct, fun group hgroup => ?_, fun b i hmove hlive => ?_⟩
  · obtain ⟨hlive, hne, hall⟩ := h.sound group hgroup
    exact ⟨hlive, hne, fun i hi => List.mem_append_left _ (hall i hi)⟩
  · rcases List.mem_append.mp hmove with hmove | hmove
    · exact h.complete b i hmove hlive
    · obtain ⟨htarget, _⟩ := Prod.mk.inj (List.mem_singleton.mp hmove)
      rw [hdead b htarget.symm] at hlive
      cases hlive

theorem GroupedLive.add (h : GroupedLive live moves groups) {b : Nat} (interval : Nat × Nat)
    (hlive : live b = true) :
    GroupedLive live (moves ++ [(some b, interval)]) (addToGroup b interval groups) := by
  refine ⟨?_, fun group hgroup => ?_, fun other i hmove hother => ?_⟩
  · rcases @keys_addToGroup _ _ _ b interval groups with ⟨hkeys, _⟩ | ⟨hkeys, hnew⟩
    · rw [hkeys]
      exact h.distinct
    · rw [hkeys]
      exact List.nodup_append.mpr ⟨h.distinct, List.pairwise_singleton _ _, by
        intro a ha c hc heq
        obtain rfl := List.mem_singleton.mp hc
        exact hnew (heq ▸ ha)⟩
  · rcases mem_addToGroup hgroup with hgroup | ⟨hkey, hself, hall⟩
    · obtain ⟨hlive, hne, hall⟩ := h.sound group hgroup
      exact ⟨hlive, hne, fun i hi => List.mem_append_left _ (hall i hi)⟩
    · refine ⟨hkey ▸ hlive, List.ne_nil_of_mem hself, fun i hi => ?_⟩
      rw [hkey]
      rcases hall i hi with rfl | ⟨found, hfound, hi⟩
      · exact List.mem_append_right _ (List.mem_singleton_self _)
      · exact List.mem_append_left _ ((h.sound _ hfound).2.2 i hi)
  · rcases List.mem_append.mp hmove with hmove | hmove
    · obtain ⟨⟨_, found⟩, hgroup, rfl, hi⟩ := h.complete other i hmove hother
      obtain ⟨more, hmore, hi⟩ := @exists_addToGroup _ _ _ b interval _ _ _ hgroup _ hi
      exact ⟨_, hmore, rfl, hi⟩
    · obtain ⟨htarget, rfl⟩ := Prod.mk.inj (List.mem_singleton.mp hmove)
      obtain rfl := Option.some.inj htarget
      obtain ⟨found, hfound, hi⟩ := @exists_addToGroup_self _ _ _ other i groups
      exact ⟨_, hfound, rfl, hi⟩

theorem groupedLive_liveGroups (live : Nat → Bool) (moves : List (Option Nat × (Nat × Nat))) :
    GroupedLive live moves (liveGroups live moves) := by
  have hfold : ∀ (rest given : List (Option Nat × (Nat × Nat)))
      (groups : List (Nat × List (Nat × Nat))), GroupedLive live given groups →
        GroupedLive live (given ++ rest) (rest.foldl (fun groups (target, interval) =>
          match target with
          | some b => if live b then addToGroup b interval groups else groups
          | none => groups) groups) := by
    intro rest
    induction rest with
    | nil =>
      intro given groups h
      rwa [List.append_nil]
    | cons move rest ih =>
      intro given groups h
      obtain ⟨target, interval⟩ := move
      rw [List.foldl_cons, List.append_cons]
      apply ih
      cases target with
      | none => exact h.skip (fun b hb => nomatch hb)
      | some b =>
        dsimp only
        split
        · rename_i hlive
          exact h.add interval hlive
        · rename_i hdead
          refine h.skip fun c hc => ?_
          obtain rfl := Option.some.inj hc
          exact Bool.eq_false_iff.mpr hdead
  have hnone : GroupedLive live [] [] := ⟨.nil, by simp, by simp⟩
  exact hfold moves [] [] hnone

/-! The quotient of a table. -/

namespace MoveTable

variable (table : MoveTable)

/-- The row that speaks for a block. -/
def firstRow (b : Nat) : Option (Bool × List (Option Nat)) :=
  (firstRows table.blocks.2 (table.blocks.1.zip (table.accepting.zip table.moves)))[b]?.join

/-- Where blocks go. -/
def blockMoves : Array (List (Option Nat)) :=
  (Array.range table.blocks.2).map fun b =>
    signature table.blocks.1 (((table.firstRow b).map (·.2)).getD [])

/-- Which blocks accept. -/
def blockAccepts : Array Bool :=
  (Array.range table.blocks.2).map fun b => ((table.firstRow b).map (·.1)).getD false

/-- Which blocks lead to one that accepts. -/
def liveBlocks : Array Bool :=
  Graph.leadingTo table.blocks.2 (fun b => (table.blockMoves[b]?.getD []).filterMap id)
    ((List.range table.blocks.2).filter fun b => table.blockAccepts[b]?.getD false)

theorem quotient_eq : table.quotient =
    { accepting := table.blockAccepts
      edges := table.blockMoves.map fun row =>
        (liveGroups (table.liveBlocks[·]?.getD false) (row.zip table.intervals)).map fun group =>
          (group.1, CharRanges.ofPairs group.2)
      initial := blockAt table.blocks.1 0 } := by
  simp only [quotient, List.getElem?_toArray]
  rfl

end MoveTable

/-- What a row of a block says of a state: where it goes, up to blocks. -/
structure Speaks (dfa : Automaton) (block : Nat → Nat) (intervals : List (Nat × Nat)) (s : Nat)
    (row : List (Option Nat)) : Prop where
  length_eq : row.length = intervals.length
  sound : ∀ (b : Nat) (interval : Nat × Nat), (some b, interval) ∈ row.zip intervals →
    ∀ c : Char, interval.1 ≤ c.toNat → c.toNat ≤ interval.2 →
      ∃ t ∈ dfa.reachable, dfa.next? s c = some t ∧ block t = b
  complete : ∀ (c : Char) (t : Nat), dfa.next? s c = some t → t ∈ dfa.reachable ∧
    ∃ interval, (some (block t), interval) ∈ row.zip intervals ∧
      interval.1 ≤ c.toNat ∧ c.toNat ≤ interval.2

/-- Every state that can be reached has a block, whose row and mark say what it does. -/
structure Spoken (dfa : Automaton) (table : MoveTable) (block : Nat → Nat) : Prop where
  block_lt : ∀ s ∈ dfa.reachable, block s < table.blocks.2
  onto : ∀ b < table.blocks.2, ∃ s ∈ dfa.reachable, block s = b
  accepts : ∀ s ∈ dfa.reachable, table.blockAccepts[block s]? = some (dfa.acceptsAt s)
  moves : ∀ s ∈ dfa.reachable, ∃ row, table.blockMoves[block s]? = some row ∧
    Speaks dfa block table.intervals s row

/-- The block of a state, by its place among those that can be reached. -/
def blockOf (dfa : Automaton) (table : MoveTable) (s : Nat) : Nat :=
  blockAt table.blocks.1 (dfa.reachable.idxOf s)

theorem blockOf_eq {dfa : Automaton} {table : MoveTable} {s i : Nat}
    (h : dfa.reachable[i]? = some s) : blockOf dfa table s = blockAt table.blocks.1 i := by
  obtain ⟨hi, rfl⟩ := List.getElem?_eq_some_iff.mp h
  rw [blockOf, (nodup_reachable dfa).idxOf_getElem]

namespace Tabulates

variable {dfa : Automaton} {table : MoveTable}

theorem length_accepting (h : Tabulates dfa dfa.reachable table) :
    table.accepting.length = table.moves.length := by
  rw [h.accepting_eq, List.length_map, h.moves.length_eq]

theorem movesInside (h : Tabulates dfa dfa.reachable table) : MovesInside table.moves := by
  intro row hrow move hmove j hj
  obtain ⟨i, hi, rfl⟩ := List.mem_iff_getElem.mp hrow
  have hgoes := h.moves.get (h.moves.length_eq ▸ hi) hi
  obtain ⟨k, hk, rfl⟩ := List.mem_iff_getElem.mp hmove
  have hk' := hgoes.length_eq ▸ hk
  obtain ⟨⟨c, hc⟩, hle, _⟩ := h.proper _ (List.getElem_mem hk')
  rw [← h.moves.length_eq]
  refine ((hgoes.get hk' hk) c (Nat.le_of_eq hc.symm) ?_).2 j hj
  rw [hc]
  exact hle

theorem divided (h : Tabulates dfa dfa.reachable table) :
    Divided table table.blocks.1 table.blocks.2 :=
  divided_blocks h.length_accepting h.movesInside

/-- The row of a block is that of one of its states, so up to blocks it is that of all of them. -/
theorem exists_firstRow (h : Tabulates dfa dfa.reachable table) {s : Nat}
    (hs : s ∈ dfa.reachable) : blockOf dfa table s < table.blocks.2 ∧
      ∃ row, table.firstRow (blockOf dfa table s) = some (dfa.acceptsAt s, row) ∧
        ∃ row', signature table.blocks.1 row = signature table.blocks.1 row' ∧
          List.Forall₂ (Goes dfa dfa.reachable s) table.intervals row' := by
  have hdivided := h.divided
  obtain ⟨i, hi⟩ := List.mem_iff_getElem?.mp hs
  obtain ⟨hlt, rfl⟩ := List.getElem?_eq_some_iff.mp hi
  have hlt' : i < table.moves.length := h.moves.length_eq ▸ hlt
  have hblocks : i < table.blocks.1.length := hdivided.length_eq ▸ hlt'
  rw [blockOf_eq hi]
  have hmem : blockAt table.blocks.1 i ∈ table.blocks.1 :=
    List.mem_of_getElem? (getElem?_eq_blockAt hblocks)
  refine ⟨(hdivided.mem_iff _).mp hmem, ?_⟩
  have hsome : (table.firstRow (blockAt table.blocks.1 i)).isSome = true := by
    refine isSome_firstRows ((hdivided.mem_iff _).mp hmem) ?_
    rw [List.map_fst_zip]
    · exact hmem
    · rw [List.length_zip, hdivided.length_eq, h.length_accepting, Nat.min_self]
  obtain ⟨⟨accepts, row⟩, hrow⟩ := Option.isSome_iff_exists.mp hsome
  obtain ⟨j, hj⟩ := List.mem_iff_getElem?.mp (mem_of_firstRows hrow)
  obtain ⟨hblock, hpair⟩ := List.getElem?_zip_eq_some.mp hj
  obtain ⟨haccepts, hmoves⟩ := List.getElem?_zip_eq_some.mp hpair
  have hsame : blockAt table.blocks.1 j = blockAt table.blocks.1 i := by
    rw [blockAt, hblock, Option.getD_some]
  obtain rfl : accepts = dfa.acceptsAt dfa.reachable[i] := by
    refine hdivided.accepting j i _ _ haccepts ?_ hsame
    rw [h.accepting_eq, List.getElem?_map, hi, Option.map_some]
  exact ⟨row, hrow, table.moves[i],
    hdivided.stable j i _ _ hmoves (List.getElem?_eq_getElem hlt') hsame, h.moves.get hlt hlt'⟩

end Tabulates

/-- The row of a state, up to blocks, speaks for it. -/
theorem speaks_signature {dfa : Automaton} {table : MoveTable}
    (h : Tabulates dfa dfa.reachable table) {s : Nat} {row : List (Option Nat)}
    (hs : s ∈ dfa.reachable)
    (hrow : List.Forall₂ (Goes dfa dfa.reachable s) table.intervals row) :
    Speaks dfa (blockOf dfa table) table.intervals s (signature table.blocks.1 row) := by
  have hlength : (signature table.blocks.1 row).length = table.intervals.length := by
    rw [signature, List.length_map, hrow.length_eq]
  refine ⟨hlength, fun b interval hmem c hlo hhi => ?_, fun c t hnext => ?_⟩
  · obtain ⟨k, hk⟩ := List.mem_iff_getElem?.mp hmem
    obtain ⟨hmove, hinterval⟩ := List.getElem?_zip_eq_some.mp hk
    rw [signature, List.getElem?_map] at hmove
    obtain ⟨move, hfrom, hblock⟩ := Option.map_eq_some_iff.mp hmove
    obtain ⟨j, rfl, rfl⟩ := Option.map_eq_some_iff.mp hblock
    obtain ⟨hk', rfl⟩ := List.getElem?_eq_some_iff.mp hinterval
    obtain ⟨hk'', hget⟩ := List.getElem?_eq_some_iff.mp hfrom
    obtain ⟨hnext, hinside⟩ := hrow.get hk' hk'' c hlo hhi
    rw [List.get_eq_getElem, hget] at hnext hinside
    have hlt : j < dfa.reachable.length := hinside j rfl
    have hplace : dfa.reachable[j]? = some dfa.reachable[j] := List.getElem?_eq_getElem hlt
    exact ⟨dfa.reachable[j], List.getElem_mem hlt, hnext.trans hplace, blockOf_eq hplace⟩
  · obtain ⟨interval, hinterval, hlo, hhi⟩ := h.covers s hs c t hnext
    obtain ⟨k, hk, rfl⟩ := List.mem_iff_getElem.mp hinterval
    have hk' := hrow.length_eq ▸ hk
    obtain ⟨hmove, hinside⟩ := hrow.get hk hk' c hlo hhi
    rw [hnext, eq_comm] at hmove
    obtain ⟨j, hj, hplace⟩ := Option.bind_eq_some_iff.mp hmove
    refine ⟨List.mem_of_getElem? hplace, table.intervals[k], ?_, hlo, hhi⟩
    refine List.mem_iff_getElem?.mpr ⟨k, List.getElem?_zip_eq_some.mpr ⟨?_, ?_⟩⟩
    · rw [signature, List.getElem?_map, List.getElem?_eq_getElem hk', Option.map_some, blockOf_eq hplace]
      rw [List.get_eq_getElem] at hj
      rw [hj, Option.map_some]
    · exact List.getElem?_eq_getElem hk

theorem spoken_blocks {dfa : Automaton} {table : MoveTable}
    (h : Tabulates dfa dfa.reachable table) : Spoken dfa table (blockOf dfa table) := by
  have hdivided := h.divided
  refine ⟨fun s hs => (h.exists_firstRow hs).1, fun b hb => ?_, fun s hs => ?_, fun s hs => ?_⟩
  · obtain ⟨i, hi, hblock⟩ := List.mem_iff_getElem.mp ((hdivided.mem_iff b).mpr hb)
    have hlt : i < dfa.reachable.length := by
      rw [h.moves.length_eq, ← hdivided.length_eq]
      exact hi
    refine ⟨dfa.reachable[i], List.getElem_mem hlt, ?_⟩
    rw [blockOf_eq (List.getElem?_eq_getElem hlt), blockAt, List.getElem?_eq_getElem hi, hblock,
      Option.getD_some]
  · obtain ⟨hlt, row, hrow, _⟩ := h.exists_firstRow hs
    simp [MoveTable.blockAccepts, hlt, hrow]
  · obtain ⟨hlt, row, hrow, row', hsame, hgoes⟩ := h.exists_firstRow hs
    refine ⟨signature table.blocks.1 row, by simp [MoveTable.blockMoves, hlt, hrow], ?_⟩
    rw [hsame]
    exact speaks_signature h hs hgoes

/-! Blocks that lead to one that accepts. -/

namespace Spoken

variable {dfa : Automaton} {table : MoveTable} {block : Nat → Nat}

/-- Where a block goes, in the graph of blocks. -/
theorem mem_next_iff (h : Spoken dfa table block) {s b : Nat} (hs : s ∈ dfa.reachable) :
    b ∈ (table.blockMoves[block s]?.getD []).filterMap id ↔
      ∃ row, table.blockMoves[block s]? = some row ∧ some b ∈ row := by
  obtain ⟨row, hrow, _⟩ := h.moves s hs
  rw [hrow]
  simp

/-- From the states of a live block some word is accepted, the same for all of them. -/
theorem exists_word (h : Spoken dfa table block)
    (hproper : ∀ interval ∈ table.intervals, (∃ c : Char, c.toNat = interval.1) ∧
      interval.1 ≤ interval.2 ∧ interval.2 ≤ maxCodePoint)
    {b : Nat} (hb : b < table.blocks.2) (hlive : table.liveBlocks[b]?.getD false = true) :
    ∃ word, ∀ s ∈ dfa.reachable, block s = b → dfa.acceptsWord s word = true := by
  obtain ⟨e, he, _, hpath⟩ := (Graph.getElem?_leadingTo hb).mp hlive
  clear hlive
  induction hpath using Relation.ReflTransGen.head_induction_on with
  | refl =>
    refine ⟨[], fun s hs hblock => ?_⟩
    have haccepts := (List.mem_filter.mp he).2
    rw [← hblock, h.accepts s hs, Option.getD_some] at haccepts
    exact haccepts
  | @head b next hstep _ ih =>
    obtain ⟨word, hword⟩ := ih hstep.2
    obtain ⟨s, hs, rfl⟩ := h.onto b hb
    obtain ⟨row, hrow, hmem⟩ := (h.mem_next_iff hs).mp hstep.1
    obtain ⟨k, hk, htarget⟩ := List.mem_iff_getElem.mp hmem
    obtain ⟨row', hrow', hspeaks⟩ := h.moves s hs
    obtain rfl := Option.some.inj (hrow.symm.trans hrow')
    have hk' : k < table.intervals.length := hspeaks.length_eq ▸ hk
    obtain ⟨⟨c, hc⟩, hle, _⟩ := hproper _ (List.getElem_mem hk')
    have hmove : (some next, table.intervals[k]) ∈ row.zip table.intervals := by
      refine List.mem_iff_getElem?.mpr ⟨k, List.getElem?_zip_eq_some.mpr ⟨?_, ?_⟩⟩
      · rw [List.getElem?_eq_getElem hk, htarget]
      · exact List.getElem?_eq_getElem hk'
    refine ⟨c :: word, fun t ht hblock => ?_⟩
    obtain ⟨row', hrow', hspeaks⟩ := h.moves t ht
    rw [hblock] at hrow'
    obtain rfl := Option.some.inj (hrow.symm.trans hrow')
    obtain ⟨u, hu, hnext, hblock⟩ :=
      hspeaks.sound next _ hmove c (Nat.le_of_eq hc.symm) (hc ▸ hle)
    rw [acceptsWord, hnext]
    exact hword u hu hblock

/-- The block of a state from which a word is accepted is live. -/
theorem live_of_acceptsWord (h : Spoken dfa table block) (word : List Char) :
    ∀ s ∈ dfa.reachable, dfa.acceptsWord s word = true →
      table.liveBlocks[block s]?.getD false = true := by
  induction word with
  | nil =>
    intro s hs haccepts
    refine (Graph.getElem?_leadingTo (h.block_lt s hs)).mpr ⟨block s, ?_, h.block_lt s hs, .refl⟩
    refine List.mem_filter.mpr ⟨List.mem_range.mpr (h.block_lt s hs), ?_⟩
    rw [h.accepts s hs, Option.getD_some]
    exact haccepts
  | cons c rest ih =>
    intro s hs haccepts
    rw [acceptsWord] at haccepts
    split at haccepts
    · rename_i t hnext
      obtain ⟨row, hrow, hspeaks⟩ := h.moves s hs
      obtain ⟨ht, interval, hmove, _, _⟩ := hspeaks.complete c t hnext
      obtain ⟨e, he, hlt, hpath⟩ :=
        (Graph.getElem?_leadingTo (h.block_lt t ht)).mp (ih t ht haccepts)
      refine (Graph.getElem?_leadingTo (h.block_lt s hs)).mpr ⟨e, he, hlt, hpath.head ⟨?_, ?_⟩⟩
      · exact (h.mem_next_iff hs).mpr ⟨row, hrow, (List.of_mem_zip hmove).1⟩
      · exact h.block_lt t ht
    · cases haccepts

end Spoken

/-! The quotient. -/

/-- The moves of a block. -/
def Quotient.leaving (q : Quotient) (b : Nat) : List (Nat × CharRanges) := q.edges[b]?.getD []

/-- The blocks of a quotient divide the states that can be reached by what is accepted from them.
The edges of a block are the moves of its states into blocks from which something is accepted. -/
structure Quotients (dfa : Automaton) (block : Nat → Nat) (q : Quotient) : Prop where
  size_le : q.edges.size ≤ dfa.reachable.length
  initial_eq : ∀ s, dfa.initial = some s → q.initial = block s
  block_lt : ∀ s ∈ dfa.reachable, block s < q.edges.size
  onto : ∀ b < q.edges.size, ∃ s ∈ dfa.reachable, block s = b
  accepting : ∀ s ∈ dfa.reachable, q.accepting[block s]?.getD false = dfa.acceptsAt s
  inside : ∀ b, ∀ e ∈ q.leaving b, e.1 < q.edges.size ∧ Normal e.2.pairs ∧ e.2.pairs ≠ []
  distinct : ∀ b, ((q.leaving b).map (·.1)).Nodup
  follows : ∀ s ∈ dfa.reachable, ∀ e ∈ q.leaving (block s), ∀ c : Char,
    Covers e.2.pairs c.toNat → ∃ t ∈ dfa.reachable, dfa.next? s c = some t ∧ block t = e.1
  live : ∀ b, ∀ e ∈ q.leaving b,
    ∃ word, ∀ s ∈ dfa.reachable, block s = e.1 → dfa.acceptsWord s word = true
  complete : ∀ s ∈ dfa.reachable, ∀ (c : Char) (t : Nat), dfa.next? s c = some t →
    (∃ word, dfa.acceptsWord t word = true) →
      t ∈ dfa.reachable ∧ ∃ e ∈ q.leaving (block s), e.1 = block t ∧ Covers e.2.pairs c.toNat

/-- The edges of a block group its moves into live blocks. -/
structure Leaves (dfa : Automaton) (table : MoveTable) (block : Nat → Nat) (b : Nat)
    (row : List (Option Nat)) (groups : List (Nat × List (Nat × Nat))) : Prop where
  speaks : ∀ s ∈ dfa.reachable, block s = b → Speaks dfa block table.intervals s row
  grouped : GroupedLive (table.liveBlocks[·]?.getD false) (row.zip table.intervals) groups
  edges_eq : table.quotient.leaving b = groups.map fun group => (group.1, ofPairs group.2)

theorem exists_leaves {dfa : Automaton} {table : MoveTable} {block : Nat → Nat}
    (h : Spoken dfa table block) {b : Nat} (hb : b < table.blocks.2) :
    ∃ row groups, Leaves dfa table block b row groups := by
  obtain ⟨s, hs, rfl⟩ := h.onto b hb
  obtain ⟨row, hrow, _⟩ := h.moves s hs
  refine ⟨row, _, fun t ht hblock => ?_, groupedLive_liveGroups _ _, ?_⟩
  · obtain ⟨row', hrow', hspeaks⟩ := h.moves t ht
    rw [hblock] at hrow'
    obtain rfl := Option.some.inj (hrow.symm.trans hrow')
    exact hspeaks
  · rw [Quotient.leaving, table.quotient_eq, Array.getElem?_map, hrow, Option.map_some,
      Option.getD_some]

theorem size_edges_quotient (table : MoveTable) : table.quotient.edges.size = table.blocks.2 := by
  rw [table.quotient_eq, Array.size_map, MoveTable.blockMoves, Array.size_map, Array.size_range]

/-- Every edge of a block is a group of moves. -/
theorem exists_group {dfa : Automaton} {table : MoveTable} {block : Nat → Nat}
    (h : Spoken dfa table block) {b : Nat} {e : Nat × CharRanges}
    (he : e ∈ table.quotient.leaving b) : b < table.blocks.2 ∧ ∃ row groups,
      Leaves dfa table block b row groups ∧ ∃ group ∈ groups, e = (group.1, ofPairs group.2) := by
  have hb : b < table.blocks.2 := by
    by_contra hb
    rw [Quotient.leaving, Array.getElem?_eq_none (size_edges_quotient table ▸ Nat.le_of_not_lt hb)]
      at he
    cases he
  obtain ⟨row, groups, hleaves⟩ := exists_leaves h hb
  rw [hleaves.edges_eq] at he
  obtain ⟨group, hgroup, rfl⟩ := List.mem_map.mp he
  exact ⟨hb, row, groups, hleaves, group, hgroup, rfl⟩

/-- A group has an interval, and its block is that of a state. -/
theorem Leaves.exists_target {dfa : Automaton} {table : MoveTable}
    (h : Tabulates dfa dfa.reachable table) {b : Nat} {row : List (Option Nat)}
    {groups : List (Nat × List (Nat × Nat))} (hb : b < table.blocks.2)
    (hleaves : Leaves dfa table (blockOf dfa table) b row groups)
    {group : Nat × List (Nat × Nat)} (hgroup : group ∈ groups) :
    group.1 < table.blocks.2 ∧ ∃ c : Char, Covers (ofPairs group.2).pairs c.toNat := by
  have hspoken := spoken_blocks h
  obtain ⟨_, hne, hall⟩ := hleaves.grouped.sound group hgroup
  obtain ⟨interval, hinterval⟩ := List.exists_mem_of_ne_nil _ hne
  have hmove := hall interval hinterval
  obtain ⟨⟨c, hc⟩, hle, _⟩ := h.proper interval (List.of_mem_zip hmove).2
  obtain ⟨s, hs, hblock⟩ := hspoken.onto b hb
  obtain ⟨t, ht, _, htblock⟩ := (hleaves.speaks s hs hblock).sound group.1 interval hmove c
    (Nat.le_of_eq hc.symm) (hc ▸ hle)
  refine ⟨htblock ▸ hspoken.block_lt t ht, c, (covers_ofPairs _ _).mpr ?_⟩
  exact ⟨noSurrogate_toNat c, interval, hinterval, Nat.le_of_eq hc.symm, hc ▸ hle⟩

/-- The quotient of a table has a block for each state, and keeps what is accepted. -/
theorem quotients_quotient {dfa : Automaton} {table : MoveTable}
    (h : Tabulates dfa dfa.reachable table)
    (hinitial : ∀ s, dfa.initial = some s → dfa.reachable[0]? = some s) :
    Quotients dfa (blockOf dfa table) table.quotient := by
  have hspoken := spoken_blocks h
  have hsize := size_edges_quotient table
  refine ⟨?_, fun s hs => ?_, fun s hs => ?_, fun b hb => hspoken.onto b (hsize ▸ hb),
    fun s hs => ?_, fun b e he => ?_, fun b => ?_, fun s hs e he c hc => ?_, fun b e he => ?_,
    fun s hs c t hnext haccepts => ?_⟩
  · have hblocks : (List.range table.blocks.2).Subperm
        (dfa.reachable.map (blockOf dfa table)) := by
      refine List.subperm_of_subset List.nodup_range fun b hb => ?_
      obtain ⟨s, hs, hblock⟩ := hspoken.onto b (List.mem_range.mp hb)
      exact List.mem_map.mpr ⟨s, hs, hblock⟩
    simpa [hsize] using hblocks.length_le
  · rw [table.quotient_eq, blockOf_eq (hinitial s hs)]
  · rw [hsize]
    exact hspoken.block_lt s hs
  · have haccepts : table.quotient.accepting = table.blockAccepts := by rw [table.quotient_eq]
    rw [haccepts, hspoken.accepts s hs, Option.getD_some]
  · obtain ⟨hb, row, groups, hleaves, group, hgroup, rfl⟩ := exists_group hspoken he
    obtain ⟨hlt, c, hc⟩ := hleaves.exists_target h hb hgroup
    refine ⟨hsize ▸ hlt, normal_ofPairs fun i hi => ?_, fun hnil => ?_⟩
    · have hmove := (hleaves.grouped.sound group hgroup).2.2 i hi
      exact (h.proper i (List.of_mem_zip hmove).2).2.2
    · dsimp only at hnil
      rw [hnil] at hc
      exact covers_nil _ hc
  · by_cases hb : b < table.blocks.2
    · obtain ⟨row, groups, hleaves⟩ := exists_leaves hspoken hb
      rw [hleaves.edges_eq, List.map_map]
      exact hleaves.grouped.distinct
    · rw [Quotient.leaving, Array.getElem?_eq_none (hsize ▸ Nat.le_of_not_lt hb)]
      exact .nil
  · obtain ⟨_, row, groups, hleaves, group, hgroup, rfl⟩ := exists_group hspoken he
    obtain ⟨_, interval, hinterval, hlo, hhi⟩ := (covers_ofPairs _ _).mp hc
    have hmove := (hleaves.grouped.sound group hgroup).2.2 interval hinterval
    exact (hleaves.speaks s hs rfl).sound group.1 interval hmove c hlo hhi
  · obtain ⟨hb, row, groups, hleaves, group, hgroup, rfl⟩ := exists_group hspoken he
    exact hspoken.exists_word h.proper (hleaves.exists_target h hb hgroup).1
      (hleaves.grouped.sound group hgroup).1
  · obtain ⟨row, groups, hleaves⟩ := exists_leaves hspoken (hspoken.block_lt s hs)
    obtain ⟨ht, interval, hmove, hlo, hhi⟩ := (hleaves.speaks s hs rfl).complete c t hnext
    obtain ⟨word, hword⟩ := haccepts
    obtain ⟨group, hgroup, heq, hi⟩ := hleaves.grouped.complete _ interval hmove
      (hspoken.live_of_acceptsWord word t ht hword)
    refine ⟨ht, (group.1, ofPairs group.2), ?_, heq, ?_⟩
    · rw [hleaves.edges_eq]
      exact List.mem_map_of_mem (f := fun group => (group.1, ofPairs group.2)) hgroup
    · exact (covers_ofPairs _ _).mpr ⟨noSurrogate_toNat c, interval, hi, hlo, hhi⟩

end RegexEngine.Automaton
