import Mathlib.Data.List.Induction
import RegexEngine.Proofs.Program.Ways
import RegexEngine.Proofs.Search.Shadows

/-!
Programs without the instructions that do nothing. What is left makes sense if the program did, and
finds the same within the same bounds.

A way through the program and its image stand at the same instruction, or the way stands before it
at instructions that do nothing. The image waits there. It has entered the same instructions, but
for those that do nothing; where the way comes to one of these for the second time, it has gone on
from there before, so the image has entered what follows.

Nothing does anything after the last instruction that is left, so a way that comes there fails with
an error. Whether the program was made to fail there does not matter.
-/

namespace RegexEngine

namespace Program

variable {p q : Program}

/-! Where instructions are moved. -/

/-- How many instructions before an address do something. -/
def newAddress (p : Program) (address : Nat) : Nat :=
  (p.instrs.toList.take address).countP (· ≠ .nop)

/-- An instruction that does something stands at an address. -/
def Works (p : Program) (address : Nat) : Prop := ∃ i, p.instrs[address]? = some i ∧ i ≠ .nop

theorem Works.lt {s : Nat} (h : p.Works s) : s < p.length := by
  obtain ⟨i, hi, _⟩ := h
  exact (Array.getElem?_eq_some_iff.mp hi).1

theorem newAddress_succ_of_nop {s : Nat} (h : p.instrs[s]? = some .nop) :
    p.newAddress (s + 1) = p.newAddress s := by
  rw [newAddress, List.take_add_one, Array.getElem?_toList, h]
  simp [newAddress]

theorem Works.newAddress_succ {s : Nat} (h : p.Works s) :
    p.newAddress (s + 1) = p.newAddress s + 1 := by
  obtain ⟨i, hi, hworks⟩ := h
  rw [newAddress, List.take_add_one, Array.getElem?_toList, hi]
  simp [newAddress, hworks]

theorem newAddress_mono {s t : Nat} (h : s ≤ t) : p.newAddress s ≤ p.newAddress t :=
  ((List.take_prefix_take_left h).sublist).countP_le

theorem Works.newAddress_lt {s t : Nat} (h : p.Works s) (hlt : s < t) :
    p.newAddress s < p.newAddress t := by
  have hmono : p.newAddress (s + 1) ≤ p.newAddress t := newAddress_mono hlt
  rw [h.newAddress_succ] at hmono
  exact hmono

theorem Works.newAddress_inj {s t : Nat} (hs : p.Works s) (ht : p.Works t)
    (heq : p.newAddress s = p.newAddress t) : s = t := by
  rcases Nat.lt_trichotomy s t with hlt | rfl | hlt
  · exact absurd heq (Nat.ne_of_lt (hs.newAddress_lt hlt))
  · rfl
  · exact absurd heq.symm (Nat.ne_of_lt (ht.newAddress_lt hlt))

/-- The table of new addresses, for a list of instructions. -/
theorem foldl_newAddresses (instrs : List Instr) :
    instrs.foldl (fun table i =>
      let count := table.back?.getD 0
      table.push (if i = .nop then count else count + 1)) #[0] =
    ((List.range (instrs.length + 1)).map fun t =>
      (instrs.take t).countP (· ≠ .nop)).toArray := by
  induction instrs using List.reverseRecOn with
  | nil => rfl
  | append_singleton instrs i ih =>
    have hbefore : (List.range (instrs.length + 1)).map
          (fun t => ((instrs ++ [i]).take t).countP (· ≠ .nop)) =
        (List.range (instrs.length + 1)).map fun t => (instrs.take t).countP (· ≠ .nop) := by
      refine List.map_congr_left fun t ht => ?_
      rw [List.take_append_of_le_length (Nat.le_of_lt_succ (List.mem_range.mp ht))]
    have hlast : ((List.range (instrs.length + 1)).map fun t =>
        (instrs.take t).countP (· ≠ .nop)).toArray.back?.getD 0 = instrs.countP (· ≠ .nop) := by
      rw [List.range_succ, List.map_append]
      simp
    have hall : (instrs ++ [i]).take (instrs.length + 1) = instrs ++ [i] := by
      apply List.take_of_length_le
      simp
    have hrange : List.range ((instrs ++ [i]).length + 1) =
        List.range (instrs.length + 1) ++ [instrs.length + 1] := by
      rw [List.length_append, List.length_singleton, List.range_succ]
    rw [List.foldl_append, ih, hrange, List.map_append, hbefore, List.map_singleton, hall,
      List.countP_append, List.foldl_cons, List.foldl_nil]
    dsimp only
    rw [hlast, List.push_toArray]
    by_cases hnop : i = .nop
    · simp [hnop]
    · simp [hnop]

theorem getElem?_newAddresses {t : Nat} (h : t ≤ p.length) :
    p.newAddresses[t]? = some (p.newAddress t) := by
  have hlt : t < p.instrs.toList.length + 1 := Nat.lt_succ_of_le h
  rw [newAddresses, ← Array.foldl_toList, foldl_newAddresses, List.getElem?_toArray,
    List.getElem?_map, List.getElem?_range hlt]
  rfl

/-- Where an instruction stands among those that do something. -/
theorem getElem?_filter_of_getElem? {instrs : List Instr} {s : Nat} {i : Instr}
    (h : instrs[s]? = some i) (hi : i ≠ .nop) :
    (instrs.filter (· ≠ .nop))[(instrs.take s).countP (· ≠ .nop)]? = some i := by
  induction instrs generalizing s with
  | nil => cases h
  | cons first rest ih =>
    cases s with
    | zero =>
      cases h
      simp [hi]
    | succ s =>
      have hrest := ih h
      by_cases hfirst : first = .nop
      · simpa [hfirst] using hrest
      · simpa [hfirst] using hrest

/-- What stands among those that do something stood among all. -/
theorem exists_getElem?_of_filter {instrs : List Instr} {k : Nat} {i : Instr}
    (h : (instrs.filter (· ≠ .nop))[k]? = some i) :
    ∃ s : Nat, instrs[s]? = some i ∧ i ≠ .nop ∧ (instrs.take s).countP (· ≠ .nop) = k := by
  induction instrs generalizing k with
  | nil => cases h
  | cons first rest ih =>
    by_cases hfirst : first = .nop
    · rw [List.filter_cons_of_neg (by simpa using hfirst)] at h
      obtain ⟨s, hs, hi, hcount⟩ := ih h
      exact ⟨s + 1, hs, hi, by simpa [hfirst] using hcount⟩
    · rw [List.filter_cons_of_pos (by simpa using hfirst)] at h
      cases k with
      | zero =>
        cases h
        exact ⟨0, rfl, hfirst, rfl⟩
      | succ k =>
        obtain ⟨s, hs, hi, hcount⟩ := ih h
        exact ⟨s + 1, hs, hi, by simpa [hfirst] using hcount⟩

/-! What makes sense. -/

theorem checkInstr_eq_ok_iff {s : Nat} {i : Instr} :
    p.checkInstr s i = .ok () ↔ (∀ t ∈ i.targets, t < p.length) ∧ p.checkOperands s i = .ok () := by
  unfold checkInstr
  cases hfound : i.targets.find? (p.length ≤ ·) with
  | some t =>
    have hbeyond := List.find?_some hfound
    have hmem := List.mem_of_find?_eq_some hfound
    apply iff_of_false (by simp)
    rintro ⟨hinside, -⟩
    exact absurd (hinside t hmem) (by simpa using hbeyond)
  | none =>
    have hinside : ∀ t ∈ i.targets, t < p.length := by
      simpa using List.find?_eq_none.mp hfound
    exact (and_iff_right hinside).symm

theorem validate_eq_ok_iff : p.validate = .ok () ↔
    p.length ≠ 0 ∧ ∀ s i, p.instrs[s]? = some i → p.checkInstr s i = .ok () := by
  have hforM : ∀ items : List (Instr × Nat),
      items.forM (fun item => p.checkInstr item.2 item.1) = .ok () ↔
        ∀ item ∈ items, p.checkInstr item.2 item.1 = .ok () := by
    intro items
    induction items with
    | nil => exact iff_of_true rfl (List.forall_mem_nil _)
    | cons first rest ih =>
      rw [List.forall_mem_cons, ← ih]
      change (p.checkInstr first.2 first.1 >>= fun _ => rest.forM _) = _ ↔ _
      cases hfirst : p.checkInstr first.2 first.1 with
      | error e =>
        apply iff_of_false
        · intro h
          cases h
        · rintro ⟨h, -⟩
          cases h
      | ok _ => exact (and_iff_right rfl).symm
  have hmem (s : Nat) (i : Instr) :
      (i, s) ∈ p.instrs.toList.zipIdx ↔ p.instrs[s]? = some i := by
    rw [List.mem_zipIdx_iff_getElem?, Array.getElem?_toList]
  unfold validate
  split
  · rename_i hempty
    apply iff_of_false (by simp)
    rintro ⟨hsome, -⟩
    exact hsome hempty
  · rename_i hsome
    rw [and_iff_right hsome]
    apply (hforM _).trans
    constructor
    · exact fun h s i hi => h (i, s) ((hmem s i).mpr hi)
    · exact fun h item hitem => h item.2 item.1 ((hmem item.2 item.1).mp hitem)

theorem repeatsTo_iff {start stop : Nat} :
    p.repeatsTo stop start = true ↔ p.instrs[stop]? = some (.repeatEnd start) := by
  unfold repeatsTo
  split
  · rename_i s heq
    rw [heq]
    simp
  · rename_i hother
    exact iff_of_false (by simp) (hother start)

theorem repeatsFrom_iff {start stop : Nat} : p.repeatsFrom start stop = true ↔
    ∃ min max greedy, p.instrs[start]? = some (.repeatStart min max greedy stop) := by
  unfold repeatsFrom
  split
  · rename_i min max greedy s heq
    rw [heq]
    simp
  · rename_i hother
    apply iff_of_false (by simp)
    rintro ⟨min, max, greedy, h⟩
    exact hother min max greedy stop h

theorem checkGroup_eq_ok_iff {s group : Nat} {i : Instr} :
    p.checkGroup s i group = .ok () ↔ group ≠ 0 ∧ group ≤ p.groupCount := by
  unfold checkGroup
  split
  · rename_i h
    apply iff_of_false (by simp)
    omega
  · rename_i h
    apply iff_of_true rfl
    omega

theorem checkOperands_cls_iff {s offset length : Nat} :
    p.checkOperands s (.cls offset length) = .ok () ↔
      length ≠ 0 ∧ (p.classes.entry? offset length).isSome = true := by
  unfold checkOperands
  dsimp only
  split
  · rename_i h
    apply iff_of_false (by simp)
    rintro ⟨hlength, hentry⟩
    rcases h with h | h
    · exact hlength h
    · rw [Option.isNone_iff_eq_none.mp h] at hentry
      cases hentry
  · rename_i h
    rw [not_or] at h
    exact iff_of_true rfl ⟨h.1, Option.isSome_iff_ne_none.mpr (by simpa using h.2)⟩

theorem checkOperands_boundary_iff {s : Nat} {marks : Marks} :
    p.checkOperands s (.boundary marks) = .ok () ↔
      marks.isEmpty = false ∧ Marks.assertions.contains marks = true := by
  unfold checkOperands
  dsimp only
  split
  · rename_i h
    apply iff_of_false (by simp)
    rintro ⟨hmarks, hassertions⟩
    rw [hmarks, hassertions] at h
    rcases h with h | h <;> cases h
  · rename_i h
    rw [not_or] at h
    exact iff_of_true rfl (by simpa using h)

/-- A repetition that makes sense ends after its start, where its rounds end. -/
theorem checkOperands_repeatStart_iff {s min stop : Nat} {max : Option Nat} {greedy : Bool} :
    p.checkOperands s (.repeatStart min max greedy stop) = .ok () ↔
      max.any (· < min) = false ∧ s < stop ∧ p.instrs[stop]? = some (.repeatEnd s) := by
  rw [← repeatsTo_iff]
  unfold checkOperands
  dsimp only
  split
  · rename_i h
    apply iff_of_false (by simp)
    rintro ⟨hmax, hlt, -⟩
    rcases h with h | h
    · rw [hmax] at h
      cases h
    · exact absurd hlt (Nat.not_lt.mpr h)
  · rename_i h
    rw [not_or] at h
    rw [and_iff_right (by simpa using h.1), and_iff_right (Nat.lt_of_not_le h.2)]
    split
    · rename_i hends
      exact iff_of_true rfl hends
    · rename_i hends
      exact iff_of_false (by simp) hends

theorem checkOperands_repeatEnd_iff {s start : Nat} :
    p.checkOperands s (.repeatEnd start) = .ok () ↔
      ∃ min max greedy, p.instrs[start]? = some (.repeatStart min max greedy s) := by
  rw [← repeatsFrom_iff]
  unfold checkOperands
  dsimp only
  split
  · rename_i hstarts
    exact iff_of_true rfl hstarts
  · rename_i hstarts
    exact iff_of_false (by simp) hstarts

/-! What is left. -/

/-- A program holds what does something in another, moved to its new place, and at most a failure
after that. -/
structure Condenses (p q : Program) : Prop where
  groupCount_eq : q.groupCount = p.groupCount
  classes_eq : q.classes = p.classes
  length_ne : q.length ≠ 0
  instr : ∀ (s : Nat) (i : Instr), p.instrs[s]? = some i → i ≠ .nop →
    q.instrs[p.newAddress s]? = some (i.mapTargets p.newAddress)
  only : ∀ (k : Nat) (j : Instr), q.instrs[k]? = some j → j = .fail ∨
    ∃ (s : Nat) (i : Instr), p.instrs[s]? = some i ∧ i ≠ .nop ∧ p.newAddress s = k ∧
      j = i.mapTargets p.newAddress
  target_lt : ∀ (s : Nat) (i : Instr), p.instrs[s]? = some i → i ≠ .nop → ∀ t ∈ i.targets,
    p.newAddress t < q.length

theorem targets_mapTargets (move : Nat → Nat) (i : Instr) :
    (i.mapTargets move).targets = i.targets.map move := by
  cases i <;> rfl

theorem mapTargets_ne_nop {move : Nat → Nat} {i : Instr} (h : i ≠ .nop) :
    i.mapTargets move ≠ .nop := by
  cases i with
  | nop => exact absurd rfl h
  | _ => simp [Instr.mapTargets]

theorem mapTargets_congr {move move' : Nat → Nat} {i : Instr}
    (h : ∀ t ∈ i.targets, move t = move' t) : i.mapTargets move = i.mapTargets move' := by
  cases i with
  | jump target => exact congrArg Instr.jump (h target (by simp [Instr.targets]))
  | split first second =>
    exact congrArg₂ Instr.split (h first (by simp [Instr.targets]))
      (h second (by simp [Instr.targets]))
  | look kind body next =>
    exact congrArg₂ (Instr.look kind) (h body (by simp [Instr.targets]))
      (h next (by simp [Instr.targets]))
  | repeatStart min max greedy stop =>
    exact congrArg (Instr.repeatStart min max greedy) (h stop (by simp [Instr.targets]))
  | repeatEnd start => exact congrArg Instr.repeatEnd (h start (by simp [Instr.targets]))
  | _ => rfl

/-- The instructions that do something. -/
def working (p : Program) : Array Instr := p.instrs.filter (· ≠ .nop)

theorem toList_working (p : Program) : p.working.toList = p.instrs.toList.filter (· ≠ .nop) :=
  Array.toList_filter

theorem newAddress_length (p : Program) : p.newAddress p.length = p.working.size := by
  have hall : p.instrs.toList.take p.length = p.instrs.toList :=
    List.take_of_length_le (Nat.le_of_eq Array.length_toList)
  rw [← Array.length_toList, toList_working, newAddress, List.countP_eq_length_filter, hall]

theorem getElem?_working {s : Nat} {i : Instr} (h : p.instrs[s]? = some i) (hi : i ≠ .nop) :
    p.working[p.newAddress s]? = some i := by
  rw [← Array.getElem?_toList] at h ⊢
  rw [toList_working]
  exact getElem?_filter_of_getElem? h hi

theorem exists_getElem?_of_working {k : Nat} {i : Instr} (h : p.working[k]? = some i) :
    ∃ s, p.instrs[s]? = some i ∧ i ≠ .nop ∧ p.newAddress s = k := by
  rw [← Array.getElem?_toList, toList_working] at h
  obtain ⟨s, hs, hi, hk⟩ := exists_getElem?_of_filter h
  rw [Array.getElem?_toList] at hs
  exact ⟨s, hs, hi, hk⟩

theorem newAddress_le (p : Program) {t : Nat} (h : t ≤ p.length) :
    p.newAddress t ≤ p.working.size := by
  rw [← newAddress_length]
  exact newAddress_mono h

/-- What is left, and whether it is followed by a failure. -/
theorem removeNops_cases (hvalid : p.validate = .ok ()) (hnops : p.working.size ≠ p.length) :
    ∃ rest : List Instr, p.removeNops.2 =
        { p with instrs := p.working.map (·.mapTargets p.newAddress) ++ rest.toArray } ∧
      (rest = [.fail] ∨ rest = [] ∧ ∀ i ∈ p.working, ∀ t ∈ i.targets,
        p.newAddress t ≠ p.working.size) := by
  have hinside : ∀ i ∈ p.working, ∀ t ∈ i.targets, p.newAddresses[t]? = some (p.newAddress t) := by
    intro i hi t ht
    obtain ⟨k, hk⟩ := Array.mem_iff_getElem?.mp hi
    obtain ⟨s, hs, -, -⟩ := exists_getElem?_of_working hk
    have hfits := checkInstr_eq_ok_iff.mp ((validate_eq_ok_iff.mp hvalid).2 s i hs)
    exact getElem?_newAddresses (Nat.le_of_lt (hfits.1 t ht))
  have hmoved : p.working.map (·.mapTargets fun t => p.newAddresses[t]?.getD t) =
      p.working.map (·.mapTargets p.newAddress) := by
    refine Array.map_congr_left fun i hi => mapTargets_congr fun t ht => ?_
    rw [hinside i hi t ht, Option.getD_some]
  let toEnd := p.working.any fun i =>
    i.targets.any fun t => p.newAddresses[t]? == some p.working.size
  let moved := p.working.map (·.mapTargets p.newAddress)
  have hresult : p.removeNops.2 = { p with instrs := if toEnd then moved.push .fail else moved } := by
    dsimp only [moved]
    rw [← hmoved]
    exact congrArg Prod.snd (if_neg hnops)
  rw [hresult]
  split
  · exact ⟨[.fail], rfl, .inl rfl⟩
  · rename_i hend
    refine ⟨[], by simp [moved], .inr ⟨rfl, fun i hi t ht heq => hend ?_⟩⟩
    apply Array.any_eq_true'.mpr
    refine ⟨i, hi, List.any_eq_true.mpr ⟨t, ht, ?_⟩⟩
    rw [hinside i hi t ht, heq, beq_self_eq_true]

theorem condenses_removeNops (hvalid : p.validate = .ok ()) (hnops : p.working.size ≠ p.length)
    (hsome : ∃ i ∈ p.instrs, i ≠ .nop) : p.Condenses p.removeNops.2 := by
  obtain ⟨rest, hresult, hrest⟩ := removeNops_cases hvalid hnops
  have hlength : p.removeNops.2.length = p.working.size + rest.length := by
    rw [hresult]
    simp [length]
  have hplace (k : Nat) (hk : k < p.working.size) :
      p.removeNops.2.instrs[k]? = p.working[k]?.map (·.mapTargets p.newAddress) := by
    rw [hresult]
    dsimp only
    rw [Array.getElem?_append_left (by simpa using hk), Array.getElem?_map]
  refine ⟨by rw [hresult], by rw [hresult], ?_, fun s i hs hi => ?_, fun k j hj => ?_,
    fun s i hs hi t ht => ?_⟩
  · obtain ⟨i, hmem, hi⟩ := hsome
    obtain ⟨s, hs⟩ := Array.mem_iff_getElem?.mp hmem
    have hlt := (Array.getElem?_eq_some_iff.mp (getElem?_working hs hi)).1
    omega
  · have hkept := getElem?_working hs hi
    rw [hplace _ (Array.getElem?_eq_some_iff.mp hkept).1, hkept, Option.map_some]
  · rcases Nat.lt_or_ge k p.working.size with hlt | hge
    · right
      rw [hplace k hlt] at hj
      obtain ⟨i, hkept, rfl⟩ := Option.map_eq_some_iff.mp hj
      obtain ⟨s, hs, hi, hk⟩ := exists_getElem?_of_working hkept
      exact ⟨s, i, hs, hi, hk, rfl⟩
    · left
      rw [hresult] at hj
      dsimp only at hj
      rw [Array.getElem?_append_right (by simpa using hge)] at hj
      have hmem := Array.mem_of_getElem? hj
      rcases hrest with rfl | ⟨rfl, -⟩
      · simpa using hmem
      · cases hj
  · have hfits := checkInstr_eq_ok_iff.mp ((validate_eq_ok_iff.mp hvalid).2 s i hs)
    have hle := p.newAddress_le (Nat.le_of_lt (hfits.1 t ht))
    rcases hrest with rfl | ⟨rfl, hbefore⟩
    · rw [hlength, List.length_singleton]
      exact Nat.lt_succ_of_le hle
    · have hmem : i ∈ p.working := Array.mem_of_getElem? (getElem?_working hs hi)
      rw [hlength, List.length_nil, Nat.add_zero]
      exact Nat.lt_of_le_of_ne hle (hbefore i hmem t ht)

namespace Condenses

variable (h : p.Condenses q)

include h

theorem ne_nop {j : Instr} (hj : j ∈ q.instrs) : j ≠ .nop := by
  obtain ⟨k, hk⟩ := Array.mem_iff_getElem?.mp hj
  rcases h.only k j hk with rfl | ⟨s, i, -, hi, -, rfl⟩
  · simp
  · exact mapTargets_ne_nop hi

/-- What a moved instruction refers to is as it was. -/
theorem checkOperands {s : Nat} {i : Instr} (hvalid : p.validate = .ok ())
    (hs : p.instrs[s]? = some i) (hi : i ≠ .nop) :
    q.checkOperands (p.newAddress s) (i.mapTargets p.newAddress) = .ok () := by
  have hworks : p.Works s := ⟨i, hs, hi⟩
  have hoperands := (checkInstr_eq_ok_iff.mp ((validate_eq_ok_iff.mp hvalid).2 s i hs)).2
  cases i with
  | repeatStart min max greedy stop =>
    obtain ⟨hmax, hlt, hstop⟩ := checkOperands_repeatStart_iff.mp hoperands
    refine checkOperands_repeatStart_iff.mpr ⟨hmax, hworks.newAddress_lt hlt, ?_⟩
    exact h.instr stop _ hstop (by simp)
  | repeatEnd start =>
    obtain ⟨min, max, greedy, hstart⟩ := checkOperands_repeatEnd_iff.mp hoperands
    exact checkOperands_repeatEnd_iff.mpr ⟨min, max, greedy, h.instr start _ hstart (by simp)⟩
  | openGroup group =>
    exact checkGroup_eq_ok_iff.mpr (h.groupCount_eq.symm ▸ checkGroup_eq_ok_iff.mp hoperands)
  | closeGroup group =>
    exact checkGroup_eq_ok_iff.mpr (h.groupCount_eq.symm ▸ checkGroup_eq_ok_iff.mp hoperands)
  | backref group nocase =>
    exact checkGroup_eq_ok_iff.mpr (h.groupCount_eq.symm ▸ checkGroup_eq_ok_iff.mp hoperands)
  | cls offset length =>
    apply checkOperands_cls_iff.mpr
    rw [h.classes_eq]
    exact checkOperands_cls_iff.mp hoperands
  | boundary marks => exact checkOperands_boundary_iff.mpr (checkOperands_boundary_iff.mp hoperands)
  | nop => exact absurd rfl hi
  | _ => rfl

theorem validate (hvalid : p.validate = .ok ()) : q.validate = .ok () := by
  refine validate_eq_ok_iff.mpr ⟨h.length_ne, fun k j hj => checkInstr_eq_ok_iff.mpr ?_⟩
  rcases h.only k j hj with rfl | ⟨s, i, hs, hi, rfl, rfl⟩
  · exact ⟨List.forall_mem_nil _, rfl⟩
  · refine ⟨fun t ht => ?_, h.checkOperands hvalid hs hi⟩
    rw [targets_mapTargets] at ht
    obtain ⟨t', ht', rfl⟩ := List.mem_map.mp ht
    exact h.target_lt s i hs hi t' ht'

end Condenses

theorem working_eq (h : ∀ i ∈ p.instrs, i ≠ .nop) : p.working = p.instrs :=
  Array.filter_eq_self.mpr fun i hi => by simpa using h i hi

theorem ne_nop_of_size_working (h : p.working.size = p.length) : ∀ i ∈ p.instrs, i ≠ .nop := by
  intro i hi
  rw [← Array.length_toList, toList_working, length, ← Array.length_toList] at h
  have hkept := List.length_filter_eq_length_iff.mp h i (Array.mem_toList_iff.mpr hi)
  simpa using hkept

/-- Where every instruction does something, nothing is removed. -/
theorem removeNops_eq_self (h : p.working.size = p.length) : p.removeNops = (0, p) :=
  if_pos h

end Program

end RegexEngine
