import Mathlib.Data.Finset.Card
import Mathlib.Data.List.Forall2
import RegexEngine.Automaton.Minimal
import RegexEngine.Proofs.Automaton.Intervals

/-!
Dividing states into blocks until none of them divides any more. A round numbers the states by their
old block and the blocks that they go to, so two states stay together exactly if both agree, and the
number of blocks never falls. A round that makes no more blocks has divided none of them: it answers
with the old blocks under new numbers, which are a fixed point. Since there are never more blocks
than states, this comes before the fuel runs out.
-/

namespace RegexEngine.Automaton

/-! Numbering keys. -/

section Keys

variable {κ : Type} [BEq κ] [Hashable κ] [LawfulBEq κ]

/-- Different keys have different numbers, below the number of keys. -/
structure Numbered (known : Std.HashMap κ Nat) : Prop where
  lt : ∀ (key : κ) (n : Nat), known[key]? = some n → n < known.size
  injective : ∀ (key other : κ) (n : Nat),
    known[key]? = some n → known[other]? = some n → key = other

theorem numbered_empty : Numbered (∅ : Std.HashMap κ Nat) := by
  constructor <;> simp

theorem Numbered.insert {known : Std.HashMap κ Nat} (h : Numbered known) {key : κ}
    (hnew : known[key]? = none) :
    Numbered (known.insert key known.size) ∧
      (known.insert key known.size).size = known.size + 1 := by
  have hsize : (known.insert key known.size).size = known.size + 1 := by
    rw [Std.HashMap.size_insert, if_neg]
    rw [Std.HashMap.mem_iff_isSome_getElem?, hnew, Option.isSome_none]
    exact Bool.false_ne_true
  have hlookup {other : κ} {n : Nat} (hother : (known.insert key known.size)[other]? = some n) :
      (key = other ∧ n = known.size) ∨ known[other]? = some n := by
    rw [Std.HashMap.getElem?_insert] at hother
    split at hother
    · rename_i heq
      exact .inl ⟨eq_of_beq heq, (Option.some.inj hother).symm⟩
    · exact .inr hother
  refine ⟨⟨fun other n hother => ?_, fun first second n hfirst hsecond => ?_⟩, hsize⟩
  · rw [hsize]
    rcases hlookup hother with ⟨_, rfl⟩ | hother
    · exact Nat.lt_succ_self _
    · exact Nat.lt_succ_of_lt (h.lt other n hother)
  · rcases hlookup hfirst with ⟨rfl, rfl⟩ | hfirst <;>
      rcases hlookup hsecond with ⟨rfl, hn⟩ | hsecond
    · rfl
    · exact absurd (h.lt second _ hsecond) (Nat.lt_irrefl _)
    · exact absurd (h.lt first _ (hn ▸ hfirst)) (Nat.lt_irrefl _)
    · exact h.injective first second n hfirst hsecond

/-- Every key gets the number that is known of it in the end, known numbers stay, and every new
number is given to some key. -/
theorem numberKeys_spec (keys : List κ) {known : Std.HashMap κ Nat} (h : Numbered known) :
    Numbered (numberKeys keys known).2 ∧
      (∀ (key : κ) (n : Nat), known[key]? = some n → (numberKeys keys known).2[key]? = some n) ∧
      List.Forall₂ (fun key n => (numberKeys keys known).2[key]? = some n) keys
        (numberKeys keys known).1 ∧
      ∀ n < (numberKeys keys known).2.size, n < known.size ∨ n ∈ (numberKeys keys known).1 := by
  induction keys generalizing known with
  | nil => exact ⟨h, fun _ _ hkey => hkey, .nil, fun n hn => .inl hn⟩
  | cons key rest ih =>
    rw [numberKeys]
    cases hkey : known[key]? with
    | some n =>
      obtain ⟨hnumbered, hkept, hall, honto⟩ := ih h
      refine ⟨hnumbered, hkept, .cons (hkept key n hkey) hall, fun m hm => ?_⟩
      exact (honto m hm).imp_right (List.mem_cons_of_mem _)
    | none =>
      obtain ⟨hinserted, hsize⟩ := h.insert hkey
      obtain ⟨hnumbered, hkept, hall, honto⟩ := ih hinserted
      refine ⟨hnumbered, fun other n hother => hkept other n ?_, .cons (hkept key _ ?_) hall,
        fun m hm => ?_⟩
      · rw [Std.HashMap.getElem?_insert, if_neg, hother]
        intro heq
        rw [eq_of_beq heq, hother] at hkey
        cases hkey
      · exact Std.HashMap.getElem?_insert_self
      · rcases honto m hm with hlt | hmem
        · rw [hsize] at hlt
          rcases Nat.lt_succ_iff_lt_or_eq.mp hlt with hlt | rfl
          · exact .inl hlt
          · exact .inr List.mem_cons_self
        · exact .inr (List.mem_cons_of_mem _ hmem)

/-- Numbering from nothing: equal numbers are those of equal keys, and all numbers below the number
of keys are used. -/
theorem numberKeys_empty (keys : List κ) :
    let numbers := (numberKeys keys ∅).1
    numbers.length = keys.length ∧
      (∀ (i j : Nat) (k l : κ), keys[i]? = some k → keys[j]? = some l →
        (numbers[i]? = numbers[j]? ↔ k = l)) ∧
      ∀ n, n ∈ numbers ↔ n < (numberKeys keys ∅).2.size := by
  obtain ⟨hnumbered, _, hall, honto⟩ := numberKeys_spec keys (numbered_empty (κ := κ))
  have hnumber {i : Nat} {k : κ} (hi : keys[i]? = some k) :
      ∃ n, (numberKeys keys ∅).1[i]? = some n ∧ (numberKeys keys ∅).2[k]? = some n := by
    obtain ⟨hlt, rfl⟩ := List.getElem?_eq_some_iff.mp hi
    have hlt' := hall.length_eq ▸ hlt
    exact ⟨_, List.getElem?_eq_getElem hlt', hall.get hlt hlt'⟩
  refine ⟨hall.length_eq.symm, fun i j k l hi hj => ?_, fun n => ⟨fun hn => ?_, fun hn => ?_⟩⟩
  · obtain ⟨n, hn, hk⟩ := hnumber hi
    obtain ⟨m, hm, hl⟩ := hnumber hj
    rw [hn, hm, Option.some.injEq]
    constructor
    · rintro rfl
      exact hnumbered.injective k l n hk hl
    · rintro rfl
      exact Option.some.inj (hk.symm.trans hl)
  · obtain ⟨i, hi, rfl⟩ := List.mem_iff_getElem.mp hn
    exact hnumbered.lt _ _ (hall.get (hall.length_eq ▸ hi) hi)
  · exact (honto n hn).resolve_left (by simp)

end Keys

/-! Rounds. -/

/-- The block of a state. -/
def blockAt (blocks : List Nat) (i : Nat) : Nat := blocks[i]?.getD 0

/-- The blocks that a row of moves leads to. -/
def signature (blocks : List Nat) (row : List (Option Nat)) : List (Option Nat) :=
  row.map (·.map (blockAt blocks))

/-- States that are together in the first division are together in the second. -/
def Refines (blocks coarse : List Nat) : Prop :=
  ∀ i j, i < blocks.length → j < blocks.length →
    blockAt blocks i = blockAt blocks j → blockAt coarse i = blockAt coarse j

/-- The states of a block go to the same blocks. -/
def Stable (moves : List (List (Option Nat))) (blocks : List Nat) : Prop :=
  ∀ (i j : Nat) (row other : List (Option Nat)), moves[i]? = some row → moves[j]? = some other →
    blockAt blocks i = blockAt blocks j → signature blocks row = signature blocks other

theorem Refines.trans {first second third : List Nat} (hlength : first.length = second.length)
    (h : Refines first second) (h' : Refines second third) : Refines first third :=
  fun i j hi hj heq => h' i j (hlength ▸ hi) (hlength ▸ hj) (h i j hi hj heq)

theorem getElem?_eq_blockAt {blocks : List Nat} {i : Nat} (h : i < blocks.length) :
    blocks[i]? = some (blockAt blocks i) := by
  rw [blockAt, List.getElem?_eq_getElem h, Option.getD_some]

variable {moves : List (List (Option Nat))} {blocks : List Nat}

/-- One round. -/
theorem splitBlocks_spec (hlength : blocks.length = moves.length) :
    let next := (splitBlocks moves blocks).1
    next.length = blocks.length ∧
      (∀ (i j : Nat) (row other : List (Option Nat)), moves[i]? = some row →
        moves[j]? = some other → (blockAt next i = blockAt next j ↔
          blockAt blocks i = blockAt blocks j ∧ signature blocks row = signature blocks other)) ∧
      ∀ b, b ∈ next ↔ b < (splitBlocks moves blocks).2 := by
  have hsplit : splitBlocks moves blocks =
      ((numberKeys (blocks.zip (moves.map (signature blocks))) ∅).1,
        (numberKeys (blocks.zip (moves.map (signature blocks))) ∅).2.size) := by
    simp only [splitBlocks, List.getElem?_toArray]
    rfl
  rw [hsplit]
  obtain ⟨hcount, hsame, honto⟩ := numberKeys_empty (blocks.zip (moves.map (signature blocks)))
  have hall : (blocks.zip (moves.map (signature blocks))).length = blocks.length := by
    rw [List.length_zip, List.length_map, hlength, Nat.min_self]
  refine ⟨hcount.trans hall, fun i j row other hrow hother => ?_, honto⟩
  have hkey {i : Nat} {row : List (Option Nat)} (hrow : moves[i]? = some row) :
      i < blocks.length ∧ (blocks.zip (moves.map (signature blocks)))[i]? =
        some (blockAt blocks i, signature blocks row) := by
    have hi : i < blocks.length := hlength ▸ (List.getElem?_eq_some_iff.mp hrow).1
    refine ⟨hi, List.getElem?_zip_eq_some.mpr ⟨getElem?_eq_blockAt hi, ?_⟩⟩
    rw [List.getElem?_map, hrow, Option.map_some]
  obtain ⟨hi, hi'⟩ := hkey hrow
  obtain ⟨hj, hj'⟩ := hkey hother
  rw [← Prod.mk.injEq, ← hsame i j _ _ hi' hj', getElem?_eq_blockAt (hcount.trans hall ▸ hi),
    getElem?_eq_blockAt (hcount.trans hall ▸ hj), Option.some.injEq]

/-- Maps that agree where another one agrees. -/
theorem map_eq_map_of_imp {α β γ : Type} {f : α → β} {g : α → γ} {items others : List α}
    (h : ∀ x ∈ items, ∀ y ∈ others, f x = f y → g x = g y) (heq : items.map f = others.map f) :
    items.map g = others.map g := by
  induction items generalizing others with
  | nil =>
    obtain rfl := List.map_eq_nil_iff.mp heq.symm
    rfl
  | cons x items ih =>
    cases others with
    | nil => cases heq
    | cons y others =>
      obtain ⟨hfirst, hrest⟩ := List.cons.inj heq
      rw [List.map_cons, List.map_cons, h x List.mem_cons_self y List.mem_cons_self hfirst,
        ih (fun x hx y hy => h x (List.mem_cons_of_mem _ hx) y (List.mem_cons_of_mem _ hy)) hrest]

/-- Moves lead to states that have rows. -/
def MovesInside (moves : List (List (Option Nat))) : Prop :=
  ∀ row ∈ moves, ∀ move ∈ row, ∀ j ∈ move, j < moves.length

/-- Rows that lead to the same blocks lead to the same ones of a coarser division. -/
theorem signature_eq_of_refines {coarse : List Nat} (hinside : MovesInside moves)
    (hlength : blocks.length = moves.length) (hrefines : Refines blocks coarse)
    {row other : List (Option Nat)} (hrow : row ∈ moves) (hother : other ∈ moves)
    (heq : signature blocks row = signature blocks other) :
    signature coarse row = signature coarse other := by
  refine map_eq_map_of_imp (fun x hx y hy hxy => ?_) heq
  cases x with
  | none =>
    cases y with
    | none => rfl
    | some j => cases hxy
  | some i =>
    cases y with
    | none => cases hxy
    | some j =>
      rw [Option.map_some, Option.map_some, hrefines i j (hlength ▸ hinside row hrow _ hx i rfl)
        (hlength ▸ hinside other hother _ hy j rfl) (Option.some.inj hxy)]

/-! Counting blocks. -/

/-- A finer division has at least as many blocks, and if it has no more, it is the same. -/
theorem card_le_of_refines {coarse : List Nat} (hlength : blocks.length = coarse.length)
    (h : Refines blocks coarse) :
    coarse.toFinset.card ≤ blocks.toFinset.card ∧
      (blocks.toFinset.card = coarse.toFinset.card → Refines coarse blocks) := by
  let both := (blocks.zip coarse).toFinset
  have hmem (i : Nat) (hi : i < blocks.length) : (blockAt blocks i, blockAt coarse i) ∈ both := by
    refine List.mem_toFinset.mpr (List.mem_iff_getElem?.mpr ⟨i, ?_⟩)
    exact List.getElem?_zip_eq_some.mpr
      ⟨getElem?_eq_blockAt hi, getElem?_eq_blockAt (hlength ▸ hi)⟩
  have hplace (p : Nat × Nat) (hp : p ∈ both) :
      ∃ i < blocks.length, p = (blockAt blocks i, blockAt coarse i) := by
    obtain ⟨i, hi⟩ := List.mem_iff_getElem?.mp (List.mem_toFinset.mp hp)
    obtain ⟨hfirst, hsecond⟩ := List.getElem?_zip_eq_some.mp hi
    obtain ⟨hi, hfirst⟩ := List.getElem?_eq_some_iff.mp hfirst
    refine ⟨i, hi, ?_⟩
    rw [blockAt, blockAt, hsecond, List.getElem?_eq_getElem hi, hfirst, Option.getD_some,
      Option.getD_some]
  have hfst : both.image Prod.fst = blocks.toFinset := by
    ext b
    simp only [both, Finset.mem_image, List.mem_toFinset]
    rw [← List.mem_map, List.map_fst_zip (Nat.le_of_eq hlength)]
  have hsnd : both.image Prod.snd = coarse.toFinset := by
    ext b
    simp only [both, Finset.mem_image, List.mem_toFinset]
    rw [← List.mem_map, List.map_snd_zip (Nat.le_of_eq hlength.symm)]
  have hcard : blocks.toFinset.card = both.card := by
    rw [← hfst, Finset.card_image_iff]
    intro p hp q hq heq
    obtain ⟨i, hi, rfl⟩ := hplace p hp
    obtain ⟨j, hj, rfl⟩ := hplace q hq
    exact Prod.ext heq (h i j hi hj heq)
  constructor
  · rw [hcard, ← hsnd]
    exact Finset.card_image_le
  · intro hsame i j hi hj heq
    rw [hcard, ← hsnd, eq_comm, Finset.card_image_iff] at hsame
    have hpair := hsame (hmem i (hlength ▸ hi)) (hmem j (hlength ▸ hj)) heq
    exact (Prod.ext_iff.mp hpair).1

theorem card_eq_of_mem_iff {count : Nat} (h : ∀ b, b ∈ blocks ↔ b < count) :
    blocks.toFinset.card = count := by
  have hrange : blocks.toFinset = Finset.range count := by
    ext b
    rw [List.mem_toFinset, h, Finset.mem_range]
  rw [hrange, Finset.card_range]

/-- Dividing until nothing changes: a stable division, finer than the first, whose blocks have the
numbers below their count. -/
theorem refine_spec (hinside : MovesInside moves) (fuel : Nat) :
    ∀ {blocks : List Nat} {count : Nat}, blocks.length = moves.length →
      count = blocks.toFinset.card → moves.length < count + fuel →
        (refine moves fuel blocks count).1.length = moves.length ∧
          (∀ b, b ∈ (refine moves fuel blocks count).1 ↔ b < (refine moves fuel blocks count).2) ∧
          Refines (refine moves fuel blocks count).1 blocks ∧
          Stable moves (refine moves fuel blocks count).1 := by
  induction fuel with
  | zero =>
    intro blocks count hlength hcount hfuel
    have hle := List.toFinset_card_le blocks
    omega
  | succ fuel ih =>
    intro blocks count hlength hcount hfuel
    obtain ⟨hnext, hsame, honto⟩ := splitBlocks_spec hlength
    have hrefines : Refines (splitBlocks moves blocks).1 blocks := by
      intro i j hi hj heq
      have hrow (i : Nat) (hi : i < (splitBlocks moves blocks).1.length) :
          moves[i]? = some moves[i] := List.getElem?_eq_getElem (by omega)
      exact ((hsame i j _ _ (hrow i hi) (hrow j hj)).mp heq).1
    obtain ⟨hle, hback⟩ := card_le_of_refines hnext hrefines
    have hfound := card_eq_of_mem_iff honto
    rw [Automaton.refine]
    dsimp only
    split
    · rename_i hstop
      refine ⟨hnext.trans hlength, honto, hrefines, fun i j row other hrow hother heq => ?_⟩
      have hbefore := ((hsame i j row other hrow hother).mp heq).2
      exact signature_eq_of_refines hinside hlength (hback (by omega)) (List.mem_of_getElem? hrow)
        (List.mem_of_getElem? hother) hbefore
    · rename_i hmore
      obtain ⟨hlast, hblocks, hfiner, hstable⟩ :=
        ih (hnext.trans hlength) hfound.symm (by omega)
      exact ⟨hlast, hblocks, hfiner.trans (by omega) hrefines, hstable⟩

theorem length_ascending (numbers : List Nat) :
    (ascending numbers).length = numbers.toFinset.card := by
  have hset : (ascending numbers).toFinset = numbers.toFinset := by
    ext n
    rw [List.mem_toFinset, List.mem_toFinset, mem_ascending]
  rw [← hset, List.toFinset_card_of_nodup]
  exact (ascending_ascends numbers).imp Nat.ne_of_lt

/-- The states of a block accept alike and go to the same blocks; no block is empty. -/
structure Divided (table : MoveTable) (blocks : List Nat) (count : Nat) : Prop where
  length_eq : blocks.length = table.moves.length
  mem_iff : ∀ b, b ∈ blocks ↔ b < count
  accepting : ∀ (i j : Nat) (accepts others : Bool), table.accepting[i]? = some accepts →
    table.accepting[j]? = some others → blockAt blocks i = blockAt blocks j → accepts = others
  stable : Stable table.moves blocks

/-- The blocks of a table divide its states. -/
theorem divided_blocks {table : MoveTable} (hlength : table.accepting.length = table.moves.length)
    (hinside : MovesInside table.moves) : Divided table table.blocks.1 table.blocks.2 := by
  unfold MoveTable.blocks
  dsimp only
  have hmarks : (table.accepting.map fun accepting => if accepting then 1 else 0).length =
      table.moves.length := (List.length_map _).trans hlength
  obtain ⟨hlast, hblocks, hrefines, hstable⟩ := refine_spec hinside (table.accepting.length + 1)
    hmarks (length_ascending _) (by omega)
  refine ⟨hlast, hblocks, fun i j accepts others hi hj heq => ?_, hstable⟩
  have hlt {i : Nat} {accepts : Bool} (hi : table.accepting[i]? = some accepts) :
      i < table.moves.length := hlength ▸ (List.getElem?_eq_some_iff.mp hi).1
  have hmark := hrefines i j (hlast ▸ hlt hi) (hlast ▸ hlt hj) heq
  rw [blockAt, blockAt, List.getElem?_map, List.getElem?_map, hi, hj] at hmark
  cases accepts <;> cases others <;> simp at hmark ⊢

end RegexEngine.Automaton
