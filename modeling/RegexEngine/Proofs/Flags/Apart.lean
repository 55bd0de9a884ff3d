import RegexEngine.Tree.Basic

/-!
Flags that have no bit in common do not get in each other's way: to set or to clear the one changes
nothing about the other. The letters that options and raw literals are written with stand for none
of the flags that say what becomes of an automaton once it is compiled.
-/

namespace RegexEngine

namespace Flags

variable {a b c : Flags}

/-- No bit is in both sets. -/
def Apart (a b : Flags) : Prop := a.bits &&& b.bits = 0

instance : Decidable (a.Apart b) := inferInstanceAs (Decidable (_ = _))

theorem bits_and_union (a b c : Flags) :
    (a.union b).bits &&& c.bits = (a.bits &&& c.bits) ||| (b.bits &&& c.bits) := by
  rw [← UInt32.toBitVec_inj]
  exact BitVec.and_or_distrib_right

theorem Apart.union (h : a.Apart c) (h' : b.Apart c) : (a.union b).Apart c := by
  unfold Apart at h h' ⊢
  rw [bits_and_union, h, h', UInt32.or_zero]

theorem union_assoc (a b c : Flags) : (a.union b).union c = a.union (b.union c) :=
  congrArg Flags.mk (UInt32.or_assoc ..)

theorem union_comm (a b : Flags) : a.union b = b.union a := congrArg Flags.mk (UInt32.or_comm ..)

theorem union_right_comm (a b c : Flags) : (a.union b).union c = (a.union c).union b := by
  rw [union_assoc, union_comm b, ← union_assoc]

theorem union_empty (a : Flags) : a.union .empty = a := congrArg Flags.mk UInt32.or_zero

/-- What is set apart from a flag does not set it. -/
theorem contains_union (h : b.Apart c) : (a.union b).contains c = a.contains c := by
  unfold contains
  rw [bits_and_union, h, UInt32.or_zero]

theorem contains_union_self (a b : Flags) : (a.union b).contains b = true := by
  unfold contains
  rw [bits_and_union, UInt32.and_self, beq_iff_eq, ← UInt32.toBitVec_inj]
  ext i hi
  simp

/-- What is cleared apart from a flag does not clear it. -/
theorem union_without (h : b.Apart c) : (a.union c).without b = (a.without b).union c := by
  unfold Apart at h
  unfold without union
  simp only [Flags.mk.injEq]
  rw [← UInt32.toBitVec_inj] at h ⊢
  have hbit : ∀ i (hi : i < 32), ¬(b.bits.toBitVec[i] = true ∧ c.bits.toBitVec[i] = true) := by
    intro i hi
    have := congrArg (fun v : BitVec 32 => v[i]) h
    simpa using this
  ext i hi
  have hnot := hbit i hi
  have hones : (0xFFFFFFFF : UInt32).toBitVec[i] = true := BitVec.getElem_allOnes i hi
  simp only [UInt32.toBitVec_and, UInt32.toBitVec_or, UInt32.toBitVec_xor, BitVec.getElem_and,
    BitVec.getElem_or, BitVec.getElem_xor, hones, Bool.xor_true]
  cases hb : b.bits.toBitVec[i] <;> cases hc : c.bits.toBitVec[i] <;> simp_all

theorem without_empty (a : Flags) : a.without .empty = a := by
  unfold without empty
  congr
  rw [← UInt32.toBitVec_inj]
  exact BitVec.and_allOnes

/-- What is set in the first set is set in the union. -/
theorem contains_union_left (h : a.contains c = true) (b : Flags) :
    (a.union b).contains c = true := by
  unfold contains at h ⊢
  rw [beq_iff_eq] at h ⊢
  rw [bits_and_union, h, ← UInt32.toBitVec_inj]
  ext i hi
  cases hc : c.bits.toBitVec[i] <;> simp [hc]

/-- What holds at the start of a fold and is kept by its steps holds at its end. -/
theorem foldlM_ok {α β ε : Type} {P : β → Prop} {f : β → α → Except ε β} {items : List α}
    (hstep : ∀ x ∈ items, ∀ v w, P v → f v x = .ok w → P w) {start stop : β}
    (hstart : P start) (h : items.foldlM f start = .ok stop) : P stop := by
  induction items generalizing start with
  | nil =>
    cases h
    exact hstart
  | cons item rest ih =>
    obtain ⟨hitem, hrest⟩ := List.forall_mem_cons.mp hstep
    rw [List.foldlM_cons] at h
    cases hfirst : f start item with
    | error e =>
      rw [hfirst] at h
      cases h
    | ok next =>
      rw [hfirst] at h
      exact ih hrest (hitem start next hstart hfirst) h

/-- A fold whose steps all answer answers. -/
theorem exists_foldlM_ok {α β ε : Type} {f : β → α → Except ε β} {items : List α}
    (hstep : ∀ x ∈ items, ∀ v, ∃ w, f v x = .ok w) :
    ∀ start, ∃ stop, items.foldlM f start = .ok stop := by
  induction items with
  | nil => exact fun start => ⟨start, rfl⟩
  | cons item rest ih =>
    intro start
    obtain ⟨hitem, hrest⟩ := List.forall_mem_cons.mp hstep
    obtain ⟨next, hnext⟩ := hitem start
    rw [List.foldlM_cons, hnext]
    exact ih hrest next

/-- What the letters stand for is set apart from a flag if each of them is. -/
theorem apart_of_letters {letters : List Char}
    (hletters : ∀ letter ∈ letters, ∀ flag, ofLetter? letter = some flag → flag.Apart b)
    (h : ofLetters letters = .ok a) : a.Apart b := by
  unfold ofLetters at h
  refine foldlM_ok (P := (·.Apart b)) (fun letter hmem flags after hflags hstep => ?_)
    UInt32.zero_and h
  cases hletter : ofLetter? letter with
  | none =>
    rw [hletter] at hstep
    cases hstep
  | some flag =>
    rw [hletter] at hstep
    cases hstep
    exact hflags.union (hletters letter hmem flag hletter)

/-- What one of the letters stands for is set. -/
theorem contains_of_mem_letters {letters : List Char} {letter : Char} (hmem : letter ∈ letters)
    (hletter : ofLetter? letter = some b) (h : ofLetters letters = .ok a) :
    a.contains b = true := by
  obtain ⟨before, after, rfl⟩ := List.append_of_mem hmem
  unfold ofLetters at h
  rw [List.foldlM_append] at h
  generalize (List.foldlM _ empty before : Except Char Flags) = start at h
  cases start with
  | error e => cases h
  | ok flags =>
    simp only [bind, Except.bind, List.foldlM_cons, hletter] at h
    refine foldlM_ok (P := (·.contains b = true)) (fun other _ v w hv hstep => ?_)
      (contains_union_self flags b) h
    cases hother : ofLetter? other with
    | none =>
      rw [hother] at hstep
      cases hstep
    | some flag =>
      rw [hother] at hstep
      cases hstep
      exact contains_union_left hv flag

/-- Letters ask for the extended form if one of them stands for it. -/
theorem contains_extended_union {letters : List Char} (h : ofLetters letters = .ok a)
    (flags : Flags) :
    (flags.union a).contains .extended = (flags.contains .extended || letters.contains 'x') := by
  by_cases hx : 'x' ∈ letters
  · have hset : a.contains .extended = true := contains_of_mem_letters hx rfl h
    rw [List.contains_iff_mem.mpr hx, Bool.or_true, union_comm]
    exact contains_union_left hset flags
  · have hnone : letters.contains 'x' = false := by simpa using hx
    rw [hnone, Bool.or_false]
    refine contains_union (apart_of_letters (fun c hc flag hflag => ?_) h)
    have hne : c ≠ 'x' := ne_of_mem_of_not_mem hc hx
    unfold ofLetter? at hflag
    split at hflag <;> cases hflag <;> first | exact absurd rfl hne | decide

/-- The flags that are looked at only once a pattern is compiled. -/
inductive Late : Flags → Prop
  | optimized : Late .optimized
  | deterministic : Late .deterministic

namespace Late

variable {late : Flags}

/-- A flag that is apart from both is there or not, whether or not a late one is set. -/
theorem contains_union (h : late.Late)
    (hapart : Flags.optimized.Apart c ∧ Flags.deterministic.Apart c) :
    (a.union late).contains c = a.contains c := by
  cases h with
  | optimized => exact Flags.contains_union hapart.1
  | deterministic => exact Flags.contains_union hapart.2

theorem apart_of_letter (h : late.Late) {letter : Char} {flag : Flags}
    (hletter : ofLetter? letter = some flag) : flag.Apart late := by
  unfold ofLetter? at hletter
  cases h <;> split at hletter <;> cases hletter <;> decide

/-- No letter stands for a late flag. -/
theorem apart_of_ofLetters (h : late.Late) {letters : List Char}
    (hletters : ofLetters letters = .ok a) : a.Apart late :=
  apart_of_letters (fun _ _ _ => h.apart_of_letter) hletters

end Late

end Flags

/-- Options never change what becomes of an automaton once it is compiled. -/
theorem OptionSet.apply_union {late : Flags} (h : late.Late) (opts : OptionSet) (flags : Flags) :
    opts.apply (flags.union late) = (opts.apply flags).union late := by
  unfold apply
  cases hflags : opts.flags with
  | error e => rfl
  | ok letters =>
    obtain ⟨on, off⟩ := letters
    have hoff : Flags.ofLetters opts.off.toList = .ok off := by
      unfold OptionSet.flags at hflags
      cases hon : Flags.ofLetters opts.on.toList with
      | error e =>
        rw [hon] at hflags
        cases hflags
      | ok on' =>
        cases hoff : Flags.ofLetters opts.off.toList with
        | error e =>
          rw [hon, hoff] at hflags
          cases hflags
        | ok off' =>
          rw [hon, hoff] at hflags
          cases hflags
          rfl
    dsimp only
    rw [Flags.union_right_comm, Flags.union_without (h.apart_of_ofLetters hoff)]

end RegexEngine
