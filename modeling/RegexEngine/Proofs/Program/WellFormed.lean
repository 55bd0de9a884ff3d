import RegexEngine.Proofs.Program.Contents
import RegexEngine.Proofs.Search.Reaching

/-!
Programs of expressions are well formed: they pass the check of programs, and no search for them
fails but at a bound.

Code is put together of parts, and what the check asks of an instruction only depends on the part
that it stands in: its addresses lie in the part or just behind it, and the two ends of a repetition
are put around what it repeats. So the code of an expression is valid wherever it is put, by
induction on the expression, as long as something follows it; and the program ends where the match is
accepted. The check looks at instructions one by one, so it cannot promise how searches end. It is the
chart of the repetitions that does: a way that runs through the program always has the counters that
the chart says, and only comes to addresses that are in it.
-/

namespace RegexEngine

/-! What the check of a program asks for. -/

/-- What is asked of the operands of an instruction, in code that holds instructions at addresses.
Whether a class is known is for the pool to say. -/
def Instr.Refers (holds : Nat → Option Instr) (at_ : Nat) : Instr → Prop
  | cls _ length => length ≠ 0
  | repeatStart min max _ stop =>
    max.any (· < min) = false ∧ at_ < stop ∧ holds stop = some (.repeatEnd at_)
  | repeatEnd start => ∃ min max greedy, holds start = some (.repeatStart min max greedy at_)
  | boundary marks => marks.isEmpty = false ∧ Marks.assertions.contains marks = true
  | _ => True

/-- An instruction does something, leads to addresses before a place, refers to groups up to a
number, and has operands that make sense. -/
structure Instr.Valid (holds : Nat → Option Instr) (groups stop at_ : Nat) (i : Instr) : Prop where
  acts : i ≠ .nop
  inside : ∀ target ∈ i.targets, target < stop
  grouped : ∀ group, i.group? = some group → 0 < group ∧ group ≤ groups
  refers : i.Refers holds at_

namespace Program

variable {p : Program} {at_ : Nat} {i : Instr}

theorem checkGroup_of_valid (h : i.Valid (p.instrs[·]?) p.groupCount p.length at_) {group : Nat}
    (hgroup : i.group? = some group) : p.checkGroup at_ i group = .ok () := by
  obtain ⟨hpos, hle⟩ := h.grouped group hgroup
  exact if_neg (by omega)

/-- What is valid passes the check, if its class is known. -/
theorem checkInstr_of_valid (h : i.Valid (p.instrs[·]?) p.groupCount p.length at_)
    (hclass : ∀ offset length, i = .cls offset length →
      (p.classes.entry? offset length).isSome = true) : p.checkInstr at_ i = .ok () := by
  have hinside : i.targets.find? (p.length ≤ ·) = none :=
    List.find?_eq_none.mpr fun target htarget => by simpa using h.inside target htarget
  have hrefers := h.refers
  unfold checkInstr
  rw [hinside]
  dsimp only
  unfold checkOperands
  cases i with
  | openGroup | closeGroup | backref => exact checkGroup_of_valid h rfl
  | cls offset length =>
    have hknown := hclass offset length rfl
    refine if_neg ?_
    rintro (hzero | hunknown)
    · exact hrefers hzero
    · exact absurd hknown (by simpa using hunknown)
  | repeatStart min max greedy stop =>
    obtain ⟨hbounds, hbefore, hstop⟩ := hrefers
    have hmatched : p.repeatsTo stop at_ = true := by simp [repeatsTo, hstop]
    dsimp only
    rw [if_neg (by simp [hbounds, hbefore]), if_pos hmatched]
  | repeatEnd start =>
    obtain ⟨min, max, greedy, hstart⟩ := hrefers
    exact if_pos (by simp [repeatsFrom, hstart])
  | boundary marks =>
    obtain ⟨hsome, hknown⟩ := hrefers
    exact if_neg (by simp [hsome, hknown])
  | _ => rfl

theorem validate_of_checkInstr (hsome : p.length ≠ 0)
    (h : ∀ at_ i, p.instrs[at_]? = some i → p.checkInstr at_ i = .ok ()) :
    p.validate = .ok () := by
  have passes (numbered : List (Instr × Nat))
      (hall : ∀ x ∈ numbered, p.checkInstr x.2 x.1 = .ok ()) :
      (numbered.forM fun x => p.checkInstr x.2 x.1) = .ok () := by
    induction numbered with
    | nil => rfl
    | cons first rest ih =>
      obtain ⟨hfirst, hrest⟩ := List.forall_mem_cons.mp hall
      exact bind_eq_ok.mpr ⟨(), hfirst, ih hrest⟩
  unfold validate
  rw [if_neg hsome]
  refine passes _ fun x hx => h x.2 x.1 ?_
  rw [← Array.getElem?_toList]
  exact List.mk_mem_zipIdx_iff_getElem?.mp hx

end Program

/-! Code that is put together. -/

/-- Every class of a pool takes up some of its text. -/
def ClassPool.Solid (pool : ClassPool) : Prop := ∀ e ∈ pool.entries, e.length ≠ 0

theorem Matcher.byteLength_ne_zero_of_parse {spec : List Char} {matcher : Matcher}
    (h : parse spec = .ok matcher) : Text.byteLength spec ≠ 0 := by
  cases spec with
  | nil => cases h
  | cons c rest => exact (Nat.add_pos_left c.utf8Size_pos _).ne'

theorem ClassPool.Solid.intern {pool pool' : ClassPool} {spec : List Char} {place : Nat × Nat}
    (h : pool.Solid) (hintern : pool.intern spec = .ok (place, pool')) :
    pool'.Solid ∧ place.2 ≠ 0 := by
  unfold ClassPool.intern at hintern
  split at hintern
  · rename_i e hfind
    cases hintern
    exact ⟨h, h e (List.mem_of_find?_eq_some hfind)⟩
  · obtain ⟨matcher, hparse, hplaced⟩ := bind_eq_ok.mp hintern
    have hlength := Matcher.byteLength_ne_zero_of_parse hparse
    dsimp only at hplaced
    split at hplaced
    · cases hplaced
    · split at hplaced
      · cases hplaced
      · cases hplaced
        exact ⟨List.forall_mem_cons.mpr ⟨hlength, h⟩, hlength⟩

namespace Lowering

/-- A step keeps the classes of the pool from being empty, and its answer is as described. -/
abbrev Emits {α : Type} (step : Step α) (post : α → Prop) : Prop :=
  Maintains (fun l : Lowering => l.classes.Solid) step post

section Steps

variable {α β : Type} {step : Step α} {post : α → Prop} {post' : β → Prop}

theorem emits_flags? {next : Flags → Step β} (h : ∀ flags, Emits (next flags) post') :
    Emits (flags? >>= next) post' :=
  fun l => h l.flags l

theorem emits_nocase? {next : Bool → Step β} (h : ∀ nocase, Emits (next nocase) post') :
    Emits (nocase? >>= next) post' :=
  fun l => h (l.flags.contains .nocase) l

theorem emits_withOptions {next : Step β} (h : Emits next post') (opts : OptionSet) :
    Emits (do modify fun l => { l with flags := opts.apply l.flags }; next) post' :=
  fun l => h { l with flags := opts.apply l.flags }

theorem emits_keepingFlags (h : Emits step post) : Emits (keepingFlags step) post := by
  refine emits_flags? fun flags => maintains_bind h fun v hv => ?_
  intro l w l' hrun hsolid
  cases hrun
  exact ⟨hsolid, hv⟩

theorem emits_groupOperand (group : Nat) :
    Emits (groupOperand group : Step Nat) fun operand => operand = group :=
  maintains_lift fun operand h => by
    unfold groupOperand at h
    split at h <;> cases h
    rfl

/-- A reference that was resolved names one of the groups. -/
theorem emits_resolve (groups : List (Option String)) (ref : GroupRef) :
    Emits (resolve groups ref : Step Nat) fun group => 0 < group ∧ group ≤ groups.length := by
  refine maintains_lift fun group h => ?_
  cases ref with
  | number n =>
    simp only [resolve] at h
    split at h
    · rename_i hnumber
      cases h
      exact hnumber
    · cases h
  | name name =>
    simp only [resolve] at h
    split at h
    · rename_i n hname
      cases h
      refine ⟨?_, SyntaxTree.le_of_indexOfName? hname⟩
      obtain ⟨k, _, rfl⟩ := Option.map_eq_some_iff.mp hname
      exact Nat.succ_pos k
    · cases h

theorem emits_classInstr (spec : List Char) :
    Emits (classInstr spec) fun i => ∃ offset length, i = .cls offset length ∧ length ≠ 0 := by
  intro l i l' hrun hsolid
  rw [run_classInstr] at hrun
  cases hintern : l.classes.intern spec with
  | error e =>
    rw [hintern] at hrun
    cases hrun
  | ok answer =>
    rw [hintern] at hrun
    cases hrun
    obtain ⟨hsolid', hlength⟩ := hsolid.intern hintern
    exact ⟨hsolid', _, _, rfl, hlength⟩

end Steps

/-- Code is valid where it stands, whatever stands around it, as long as it does not end there. -/
def Sound (groups at_ : Nat) (code : List Instr) : Prop :=
  ∀ (holds : Nat → Option Instr) (stop : Nat), AllFrom (fun k i => holds k = some i) at_ code →
    at_ + code.length < stop → AllFrom (fun k i => i.Valid holds groups stop k) at_ code

section Parts

variable {groups at_ : Nat} {i first last : Instr} {code more : List Instr}

theorem sound_nil : Sound groups at_ [] := fun _ _ _ _ => trivial

theorem sound_single (h : ∀ holds stop, at_ + 1 < stop → i.Valid holds groups stop at_) :
    Sound groups at_ [i] :=
  fun holds stop _ hstop => ⟨h holds stop hstop, trivial⟩

/-- An instruction without addresses and groups. -/
theorem sound_leaf (hacts : i ≠ .nop) (htargets : i.targets = []) (hgroup : i.group? = none)
    (hrefers : ∀ holds, i.Refers holds at_) : Sound groups at_ [i] :=
  sound_single fun holds _ _ => ⟨hacts, by simp [htargets], by simp [hgroup], hrefers holds⟩

theorem Sound.append (h : Sound groups at_ code) (h' : Sound groups (at_ + code.length) more) :
    Sound groups at_ (code ++ more) := by
  intro holds stop hholds hstop
  obtain ⟨hcode, hmore⟩ := allFrom_append.mp hholds
  rw [List.length_append] at hstop
  exact allFrom_append.mpr ⟨h holds stop hcode (by omega), h' holds stop hmore (by omega)⟩

/-- Code behind an instruction that may lead to it, or behind it. -/
theorem Sound.cons (h : Sound groups (at_ + 1) code)
    (hfirst : ∀ holds stop, at_ + code.length + 1 < stop → first.Valid holds groups stop at_) :
    Sound groups at_ (first :: code) := by
  intro holds stop hholds hstop
  rw [List.length_cons] at hstop
  exact ⟨hfirst holds stop (by omega), h holds stop hholds.2 (by omega)⟩

/-- Code between two instructions, which may refer to each other. -/
theorem Sound.between (h : Sound groups (at_ + 1) code)
    (hfirst : ∀ holds stop, holds (at_ + code.length + 1) = some last →
      at_ + code.length + 2 < stop → first.Valid holds groups stop at_)
    (hlast : ∀ holds stop, holds at_ = some first → at_ + code.length + 2 < stop →
      last.Valid holds groups stop (at_ + code.length + 1)) :
    Sound groups at_ (first :: code ++ [last]) := by
  intro holds stop hholds hstop
  have hplace : at_ + 1 + code.length = at_ + code.length + 1 := by omega
  have hend : at_ + (first :: code ++ [last]).length = at_ + code.length + 2 := by simp; omega
  rw [hend] at hstop
  obtain ⟨hholds_first, hholds_rest⟩ := hholds
  obtain ⟨hholds_code, hholds_last, _⟩ := allFrom_append.mp hholds_rest
  rw [hplace] at hholds_last
  refine ⟨hfirst holds stop hholds_last hstop, allFrom_append.mpr ⟨?_, ?_, trivial⟩⟩
  · exact h holds stop hholds_code (by omega)
  · rw [hplace]
    exact hlast holds stop hholds_first hstop

theorem valid_choice {holds : Nat → Option Instr} {stop enter exit : Nat} (greedy : Bool)
    (henter : enter < stop) (hexit : exit < stop) :
    (choice greedy enter exit).Valid holds groups stop at_ := by
  unfold choice
  split
  · exact ⟨by simp, by simp [Instr.targets, henter, hexit], by simp [Instr.group?], trivial⟩
  · exact ⟨by simp, by simp [Instr.targets, henter, hexit], by simp [Instr.group?], trivial⟩

theorem valid_jump {holds : Nat → Option Instr} {stop target : Nat} (h : target < stop) :
    (Instr.jump target).Valid holds groups stop at_ :=
  ⟨by simp, by simpa [Instr.targets] using h, by simp [Instr.group?], trivial⟩

theorem bound_any {min : Nat} {max : Option Nat} (h : max.any (· < min) = false) :
    (Instr.bound max).any (· < min) = false := by
  cases max with
  | none => rfl
  | some most =>
    unfold Instr.bound
    simp only [Option.filter_some]
    split
    · exact h
    · rfl

/-- The ends of a counted repetition refer to each other. -/
theorem sound_counted {min : Nat} {max : Option Nat} (hbounds : max.any (· < min) = false)
    (h : Sound groups (at_ + 1) code) (greedy : Bool) :
    Sound groups at_ (.repeatStart min (Instr.bound max) greedy (at_ + code.length + 1) :: code
      ++ [.repeatEnd at_]) := by
  apply h.between
  · intro holds stop hholds hstop
    have hbefore : at_ < at_ + code.length + 1 := by omega
    refine ⟨by simp, ?_, by simp [Instr.group?], bound_any hbounds, hbefore, hholds⟩
    simp only [Instr.targets, List.mem_singleton, forall_eq]
    omega
  · intro holds stop hholds hstop
    refine ⟨by simp, ?_, by simp [Instr.group?], _, _, _, hholds⟩
    simp only [Instr.targets, List.mem_singleton, forall_eq]
    omega

theorem emits_repetition {lowerAt : Nat → Step (List Instr)} {min : Nat} {max : Option Nat}
    (hbounds : max.any (· < min) = false) (h : ∀ at_, Emits (lowerAt at_) (Sound groups at_))
    (at_ : Nat) (greedy : Bool) :
    Emits (repetition at_ min max greedy lowerAt) (Sound groups at_) := by
  unfold repetition
  split
  · refine maintains_bind (h (at_ + 1)) fun code hcode => maintains_pure ?_
    apply hcode.between
    · exact fun holds stop _ hstop => valid_choice greedy (by omega) hstop
    · exact fun holds stop _ hstop => valid_jump (by omega)
  · refine maintains_bind (h at_) fun code hcode => maintains_pure ?_
    refine hcode.append (sound_single fun holds stop hstop => ?_)
    exact valid_choice greedy (by omega) hstop
  · refine maintains_bind (h (at_ + 1)) fun code hcode => maintains_pure ?_
    exact hcode.cons fun holds stop hstop => valid_choice greedy (by omega) hstop
  · exact h at_
  · exact maintains_pure sound_nil
  · refine maintains_bind (h (at_ + 1)) fun code hcode => maintains_pure ?_
    exact sound_counted hbounds hcode greedy

theorem sound_captured {group : Nat} (h : Sound groups (at_ + 1) code) (hpos : 0 < group)
    (hle : group ≤ groups) :
    Sound groups at_ (.openGroup group :: code ++ [.closeGroup group]) := by
  have hgroup {other : Nat} (h : some group = some other) : 0 < other ∧ other ≤ groups := by
    cases h
    exact ⟨hpos, hle⟩
  apply h.between
  · exact fun _ _ _ _ => ⟨by simp, by simp [Instr.targets], fun _ => hgroup, trivial⟩
  · exact fun _ _ _ _ => ⟨by simp, by simp [Instr.targets], fun _ => hgroup, trivial⟩

theorem sound_look (h : Sound groups (at_ + 1) code) (kind : LookKind) :
    Sound groups at_ (.look kind (at_ + 1) (at_ + code.length + 2) :: code ++ [.accept]) := by
  apply h.between
  · intro holds stop _ hstop
    refine ⟨by simp, ?_, by simp [Instr.group?], trivial⟩
    simp only [Instr.targets, List.mem_cons, List.not_mem_nil, or_false, forall_eq_or_imp,
      forall_eq]
    omega
  · exact fun _ _ _ _ => ⟨by simp, by simp [Instr.targets], by simp [Instr.group?], trivial⟩

theorem sound_joinBranches_cons {stop : Nat} {other : List Instr} {rest : List (List Instr)}
    (hstop : stop = at_ + branchesLength (code :: other :: rest))
    (h : Sound groups (at_ + 1) code)
    (hrest : Sound groups (at_ + code.length + 2)
      (joinBranches (at_ + code.length + 2) stop (other :: rest))) :
    Sound groups at_ (joinBranches at_ stop (code :: other :: rest)) := by
  intro holds bound hholds hbound
  have hplace : at_ + 1 + code.length = at_ + code.length + 1 := by omega
  have hend : at_ + code.length + 2 +
      (joinBranches (at_ + code.length + 2) stop (other :: rest)).length = stop := by
    rw [branchesLength_joinBranches, hstop]
    simp only [branchesLength]
    omega
  rw [branchesLength_joinBranches, ← hstop] at hbound
  obtain ⟨_, hholds⟩ := hholds
  obtain ⟨hholds_code, _, hholds_rest⟩ := allFrom_append.mp hholds
  rw [hplace] at hholds_rest
  refine ⟨⟨by simp, ?_, by simp [Instr.group?], trivial⟩, allFrom_append.mpr ⟨?_, ?_, ?_⟩⟩
  · simp only [Instr.targets, List.mem_cons, List.not_mem_nil, or_false, forall_eq_or_imp,
      forall_eq]
    omega
  · exact h holds bound hholds_code (by omega)
  · exact valid_jump hbound
  · rw [hplace]
    exact hrest holds bound hholds_rest (by omega)

theorem refers_anchor {holds : Nat → Option Instr} (flags : Flags) (a : Anchor) :
    (Instr.boundary (Blueprint.anchorMarks flags a)).Refers holds at_ := by
  unfold Blueprint.anchorMarks
  repeat' split
  all_goals exact ⟨by decide, by decide⟩

theorem refers_boundary {holds : Nat → Option Instr} (negated : Bool) :
    (Instr.boundary (if negated then .notWordBoundary else .wordBoundary)).Refers holds at_ := by
  cases negated <;> exact ⟨by decide, by decide⟩

end Parts

/-! Expressions. -/

open RegexEngine.Tree

/-- What an expression has to be like for its code to be valid: groups are numbered, and the bounds
of repetitions are in order. -/
def Orderly (groups : List (Option String)) : Tree → Prop
  | .capture index _ _ => 0 < index ∧ index ≤ groups.length
  | .repetition q _ => q.max.any (· < q.min) = false
  | _ => True

mutual

/-- The code of an expression is valid wherever it is put. -/
theorem emits_lower {groups : List (Option String)} : (t : Tree) → t.Each (Orderly groups) →
    (at_ : Nat) → Emits (lower groups at_ t) (Sound groups.length at_)
  | .empty, _, _ | .comment _, _, _ => maintains_pure sound_nil
  | .literal _, _, _ => emits_nocase? fun _ =>
    maintains_pure (sound_leaf (by simp) rfl rfl fun _ => trivial)
  | .dot, _, _ => emits_flags? fun _ =>
    maintains_pure (sound_leaf (by simp) rfl rfl fun _ => trivial)
  | .cls _ _, _, _ => by
    refine emits_flags? fun _ => maintains_bind (emits_classInstr _) fun i hi => maintains_pure ?_
    obtain ⟨offset, length, rfl, hlength⟩ := hi
    exact sound_leaf (by simp) rfl rfl fun _ => hlength
  | .group c, h, at_ => emits_keepingFlags (emits_lower c (each_group.mp h).2 at_)
  | .scope opts c, h, at_ => emits_keepingFlags
    (emits_withOptions (emits_lower c ((each_scope opts).mp h).2 at_) opts)
  | .capture index name c, h, at_ => by
    obtain ⟨⟨hpos, hle⟩, hchild⟩ := (each_capture index name).mp h
    refine emits_keepingFlags (maintains_bind (emits_groupOperand index) fun group hgroup => ?_)
    subst hgroup
    refine maintains_bind (emits_lower c hchild (at_ + 1)) fun code hcode => maintains_pure ?_
    exact sound_captured hcode hpos hle
  | .backref ref, _, _ => by
    refine maintains_bind (emits_resolve groups ref) fun group hgroup => ?_
    refine maintains_bind (emits_groupOperand group) fun operand hoperand => ?_
    subst hoperand
    refine emits_nocase? fun nocase => maintains_pure (sound_single fun _ _ _ => ?_)
    refine ⟨by simp, by simp [Instr.targets], fun other hother => ?_, trivial⟩
    cases hother
    exact hgroup
  | .repetition q c, h, at_ => by
    obtain ⟨hbounds, hchild⟩ := (each_repetition q).mp h
    rw [lower]
    split
    · exact maintains_throw _
    · refine emits_flags? fun _ => emits_repetition hbounds (fun at_ => ?_) _ _
      exact emits_lower c hchild at_
  | .anchor a, _, _ => emits_flags? fun flags =>
    maintains_pure (sound_leaf (by simp) rfl rfl fun _ => refers_anchor flags a)
  | .boundary negated, _, _ =>
    maintains_pure (sound_leaf (by simp) rfl rfl fun _ => refers_boundary negated)
  | .look kind c, h, at_ => by
    obtain ⟨_, hchild⟩ := (each_look kind).mp h
    refine maintains_bind (emits_keepingFlags (emits_lower c hchild (at_ + 1))) fun code hcode => ?_
    exact maintains_pure (sound_look hcode kind)
  | .options opts, _, _ => emits_withOptions (maintains_pure sound_nil) opts
  | .atomic _, _, _ | .groupCond _ _ _, _, _ | .lookCond _ _ _ _, _, _ | .verb .commit, _, _ =>
    maintains_throw _
  | .verb .fail, _, _ | .invalid, _, _ | .verb .accept, _, _ =>
    maintains_pure (sound_leaf (by simp) rfl rfl fun _ => trivial)
  | .alt items, h, at_ => by
    have hitems := emits_lowerBranches items (each_alt.mp h).2 at_
    refine emits_keepingFlags (maintains_bind hitems fun codes hcodes => maintains_pure ?_)
    exact hcodes.2 _ rfl
  | .concat items, h, at_ => emits_lowerAll items (each_concat.mp h).2 at_

theorem emits_lowerAll {groups : List (Option String)} : (items : List Tree) →
    (∀ item ∈ items, item.Each (Orderly groups)) → (at_ : Nat) →
      Emits (lowerAll groups at_ items) (Sound groups.length at_)
  | [], _, _ => maintains_pure sound_nil
  | item :: rest, h, at_ => by
    obtain ⟨hitem, hrest⟩ := List.forall_mem_cons.mp h
    refine maintains_bind (emits_lower item hitem at_) fun code hcode => ?_
    refine maintains_bind (emits_lowerAll rest hrest _) fun more hmore => ?_
    exact maintains_pure (hcode.append hmore)

/-- The code of alternatives can be joined. -/
theorem emits_lowerBranches {groups : List (Option String)} : (items : List Tree) →
    (∀ item ∈ items, item.Each (Orderly groups)) → (at_ : Nat) →
      Emits (lowerBranches groups at_ items) fun codes => codes.length = items.length ∧
        ∀ stop, stop = at_ + branchesLength codes →
          Sound groups.length at_ (joinBranches at_ stop codes)
  | [], _, _ => maintains_pure ⟨rfl, fun _ _ => sound_nil⟩
  | [item], h, at_ => by
    refine maintains_bind (emits_lower item (h item List.mem_cons_self) at_) fun code hcode => ?_
    exact maintains_pure ⟨rfl, fun _ _ => hcode⟩
  | item :: next :: rest, h, at_ => by
    obtain ⟨hitem, hrest⟩ := List.forall_mem_cons.mp h
    refine maintains_bind (emits_lower item hitem (at_ + 1)) fun code hcode => ?_
    refine maintains_bind (emits_lowerBranches (next :: rest) hrest _) fun codes hcodes => ?_
    obtain ⟨hlength, hjoined⟩ := hcodes
    refine maintains_pure ⟨by simp [hlength], fun stop hstop => ?_⟩
    cases codes with
    | nil => cases hlength
    | cons second others =>
      refine sound_joinBranches_cons hstop hcode (hjoined stop ?_)
      rw [hstop]
      simp only [branchesLength]
      omega

end

end Lowering

namespace SyntaxTree

variable {tree : SyntaxTree}

/-- The check sees to the bounds of repetitions, and groups were numbered when the tree was made. -/
theorem orderly_of_validate {maxDepth : Nat} (made : tree.Made)
    (h : tree.validate maxDepth = .ok ()) : tree.root.Each (Lowering.Orderly tree.groups) := by
  intro node hmem
  unfold validate at h
  dsimp only at h
  split at h
  · cases h
  obtain ⟨seen, passed⟩ := checkNode_of_checkNodes h node hmem
  cases node with
  | capture index name child => exact made.index_bounds hmem
  | repetition q child =>
    obtain ⟨⟨⟩, _, hbounds⟩ := bind_eq_ok.mp passed
    exact (Bool.not_eq_true' _).mp (require_eq_ok.mp hbounds)
  | _ => trivial

end SyntaxTree

namespace Program

variable {tree : SyntaxTree} {p : Program}

/-- Every instruction of the program of an expression is valid. -/
theorem ofTree_valid (horderly : tree.root.Each (Lowering.Orderly tree.groups))
    (hp : ofTree tree = .ok p) (at_ : Nat) (i : Instr) (hi : p.instrs[at_]? = some i) :
    i.Valid (p.instrs[·]?) p.groupCount p.length at_ := by
  obtain ⟨code, l, hrun, rfl⟩ := ofTree_ok hp
  have hsolid : ClassPool.empty.Solid := List.forall_mem_nil _
  obtain ⟨_, hcode⟩ := Lowering.emits_lower tree.root horderly 0 _ code l hrun hsolid
  simp only [List.getElem?_toArray, length, List.size_toArray, List.length_append,
    List.length_singleton] at hi ⊢
  have hholds : AllFrom (fun k i => (code ++ [Instr.accept])[k]? = some i) 0 code := by
    rw [allFrom_iff]
    intro k item hitem
    rw [Nat.zero_add, List.getElem?_append_left (List.getElem?_eq_some_iff.mp hitem).1, hitem]
  have haccept (k : Nat) : Instr.accept.Valid (fun k => (code ++ [Instr.accept])[k]?)
      tree.groups.length (code.length + 1) k :=
    ⟨by simp, by simp [Instr.targets], by simp [Instr.group?], trivial⟩
  have hlast : AllFrom (fun k i => i.Valid (fun k => (code ++ [Instr.accept])[k]?)
      tree.groups.length (code.length + 1) k) (0 + code.length) [Instr.accept] :=
    ⟨haccept _, trivial⟩
  have hall := allFrom_append.mpr ⟨hcode _ (code.length + 1) hholds (by omega), hlast⟩
  have hvalid := allFrom_iff.mp hall at_ i hi
  rwa [Nat.zero_add] at hvalid

theorem ofTree_knowsClasses (hp : ofTree tree = .ok p) : p.KnowsClasses := by
  have hasks : tree.root.Each (Tree.AsksFor tree.groups fun _ => True) := by
    intro node _
    unfold Tree.AsksFor
    split <;> simp
  exact knowsClasses_of_stems (ofTree_stems hasks hp)

theorem groupCount_ofTree (hp : ofTree tree = .ok p) : p.groupCount = tree.groupCount := by
  obtain ⟨code, l, _, rfl⟩ := ofTree_ok hp
  rfl

theorem length_ofTree (hp : ofTree tree = .ok p) : p.length ≠ 0 := by
  obtain ⟨code, l, _, rfl⟩ := ofTree_ok hp
  simp [length]

/-- What is promised of a program with so many groups. -/
structure WellFormed (groups : Nat) (p : Program) : Prop where
  valid : p.validate = .ok ()
  acts : ∀ i ∈ p.instrs, i ≠ .nop
  grouped : ∀ i ∈ p.instrs, ∀ group, i.group? = some group → 1 ≤ group ∧ group ≤ groups
  /-- No search for the program, in whatever input and from whatever place, and whatever bounds and
  managers it has, fails but at a bound. -/
  limited : ∀ (search : Search) (start : Nat) (t : Tracker) (e : Error),
    ((p.attempt search start).run t).1 = .error e → e.IsLimit
  /-- No search runs past the last instruction. -/
  inside : ∀ (search : Search) (start : Nat) (path : Path),
    p.code.Enters search 0 start path → path.place < p.length
  /-- A search ends a round of the repetition that its innermost counter is of. -/
  counted : ∀ (search : Search) (start : Nat) (path : Path) (first : Nat),
    p.code.Enters search 0 start path → p.instrs[path.place]? = some (.repeatEnd first) →
      ∃ counter outer, path.counters = counter :: outer ∧ counter.start = first

/-- The program of a tree that passed the check is well formed. -/
theorem ofTree_wellFormed {maxDepth : Nat} (made : tree.Made)
    (accepted : tree.validate maxDepth = .ok ()) (hp : ofTree tree = .ok p) :
    p.WellFormed tree.groupCount := by
  have hvalid := ofTree_valid (tree.orderly_of_validate made accepted) hp
  have hclasses := ofTree_knowsClasses hp
  have hsome := length_ofTree hp
  obtain ⟨nest, hnested, hstart⟩ := ofTree_nested hp
  have hclosed := hnested.closedOn hclasses
  have hinitial (start : Nat) : p.Counts nest (.start 0 start (.unset p.code.groups)) :=
    ⟨hstart, by simp [Path.start]⟩
  have hmem {i : Instr} (hi : i ∈ p.instrs) :
      ∃ at_, i.Valid (p.instrs[·]?) p.groupCount p.length at_ := by
    obtain ⟨at_, hat⟩ := Array.mem_iff_getElem?.mp hi
    exact ⟨at_, hvalid at_ i hat⟩
  constructor
  case valid =>
    refine validate_of_checkInstr hsome fun at_ i hi => checkInstr_of_valid (hvalid at_ i hi) ?_
    rintro offset length rfl
    simpa [ClassPool.matcher?] using hclasses offset length (Array.mem_of_getElem? hi)
  case acts =>
    intro i hi
    obtain ⟨at_, h⟩ := hmem hi
    exact h.acts
  case grouped =>
    intro i hi group hgroup
    obtain ⟨at_, h⟩ := hmem hi
    rw [← groupCount_ofTree hp]
    exact h.grouped group hgroup
  case limited =>
    intro search start t e he
    rw [attempt, if_neg hsome] at he
    exact (hclosed.search_unfailing (hinitial start)).isLimit he
  case inside =>
    intro search start path henters
    exact hnested.inside _ _ (hclosed.of_enters (hinitial start) henters).around
  case counted =>
    intro search start path first henters hfirst
    have hcounts := hclosed.of_enters (hinitial start) henters
    obtain ⟨outer, haround, _⟩ := hnested.fits _ _ _ hfirst hcounts.around
    obtain ⟨counter, counters, hcounters, hcounter, _⟩ := List.map_eq_cons_iff.mp haround
    exact ⟨counter, counters, hcounters, hcounter⟩

/-- Two or three rounds, each of which takes a group if a class comes next, and the group once more.
-/
def guardedRounds : SyntaxTree :=
  SyntaxTree.ofTree (.concat [.repetition ⟨2, some 3, true, false⟩
    (.alt [.concat [.look .ahead (.cls .bracket "[ab]"), .capture 1 none (.literal 'a')],
      .literal 'b']), .backref (.number 1)]) .nocase

theorem ofTree_wellFormed_guardedRounds : guardedRounds.Made ∧ guardedRounds.validate 5 = .ok () ∧
    ∃ p, ofTree guardedRounds = .ok p ∧ p.length = 13 ∧ p.WellFormed 1 := by
  have made : guardedRounds.Made := SyntaxTree.made_ofTree ..
  have accepted : guardedRounds.validate 5 = .ok () := by rfl
  exact ⟨made, accepted, _, rfl, rfl, ofTree_wellFormed made accepted rfl⟩

end Program

end RegexEngine
