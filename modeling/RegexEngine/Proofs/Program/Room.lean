import Mathlib.Algebra.GroupWithZero.Nat
import RegexEngine.Proofs.Program.Charts
import RegexEngine.Proofs.Text
import RegexEngine.Proofs.Tree.Checked

/-!
How much room the program of an expression takes. Addresses of instructions, numbers of groups and
places in the pool of classes are words, and what does not fit in words is refused. The room of a
tree bounds all three, so that a tree that was checked and takes little room is only refused for
expressions that programs know nothing of.
-/

namespace RegexEngine

namespace Tree

/-- The room that an expression takes besides those inside it: instructions, and the bytes of a
class with its mark. -/
def ownRoom : Tree → Nat
  | cls _ spec => 4 + Text.byteLength spec.toList
  | _ => 4

/-- The room that a tree takes. -/
def room (t : Tree) : Nat := (t.preorder.map ownRoom).sum

/-- The room that some trees take together. -/
def roomAll (items : List Tree) : Nat := (items.map room).sum

section Constructors

variable (t u v : Tree)

@[simp] theorem room_capture (index : Nat) (name : Option String) :
    (capture index name t).room = 4 + t.room := by
  simp [room, ownRoom]

@[simp] theorem room_group : (group t).room = 4 + t.room := by
  simp [room, ownRoom]

@[simp] theorem room_scope (opts : OptionSet) : (scope opts t).room = 4 + t.room := by
  simp [room, ownRoom]

@[simp] theorem room_repetition (q : Quantifier) : (repetition q t).room = 4 + t.room := by
  simp [room, ownRoom]

@[simp] theorem room_look (kind : LookKind) : (look kind t).room = 4 + t.room := by
  simp [room, ownRoom]

theorem sum_preorders (items : List Tree) :
    ((preorders items).map ownRoom).sum = roomAll items := by
  induction items with
  | nil => rfl
  | cons item rest ih => simp [roomAll, room, ih]

@[simp] theorem room_alt (items : List Tree) : (alt items).room = 4 + roomAll items := by
  simp [room, ownRoom, sum_preorders]

@[simp] theorem room_concat (items : List Tree) : (concat items).room = 4 + roomAll items := by
  simp [room, ownRoom, sum_preorders]

@[simp] theorem roomAll_nil : roomAll [] = 0 := rfl

@[simp] theorem roomAll_cons (items : List Tree) :
    roomAll (t :: items) = t.room + roomAll items := by
  simp [roomAll]

end Constructors

/-- Every expression takes some room. -/
theorem length_preorder_le_room (t : Tree) : t.preorder.length ≤ t.room := by
  have each (nodes : List Tree) : nodes.length ≤ (nodes.map ownRoom).sum := by
    induction nodes with
    | nil => simp
    | cons node rest ih =>
      have own : 1 ≤ ownRoom node := by
        unfold ownRoom
        split <;> omega
      simp only [List.length_cons, List.map_cons, List.sum_cons]
      omega
  exact each t.preorder

end Tree

/-- Why a program is refused: an expression is not supported, or words are too narrow for the room
that is needed. -/
def Error.Declines (e : Error) (room : Nat) : Prop :=
  e.kind = .unsupportedOperation ∨ e.kind = .limit ∧ UInt32.size ≤ room

theorem Error.Declines.mono {e : Error} {room more : Nat} (h : e.Declines room)
    (le : room ≤ more) : e.Declines more :=
  h.imp_right fun ⟨kind, wide⟩ => ⟨kind, Nat.le_trans wide le⟩

/-- A class that can be read comes into the pool, if words are wide enough for its place. -/
theorem ClassPool.intern_room (p : ClassPool) {spec : List Char} {matcher : Matcher}
    (h : Matcher.parse spec = .ok matcher) :
    match p.intern spec with
    | .ok (_, p') => p'.size ≤ p.size + Text.byteLength spec
    | .error e => e.Declines (p.size + Text.byteLength spec) := by
  have wide {n : Nat} (h : Text.maxWord32 < n) : UInt32.size ≤ n := h
  unfold intern
  cases p.entries.find? (·.spec == spec) with
  | some e => exact Nat.le_add_right _ _
  | none =>
    simp only [h, bind, Except.bind]
    by_cases offset : Text.maxWord32 < p.size
    · rw [if_pos offset]
      exact .inr ⟨rfl, Nat.le_add_right_of_le (wide offset)⟩
    · rw [if_neg offset]
      by_cases length : Text.maxWord32 < Text.byteLength spec
      · rw [if_pos length]
        exact .inr ⟨rfl, Nat.le_add_left_of_le (wide length)⟩
      · rw [if_neg length]
        exact Nat.le_of_eq (Text.byteLength_append _ _)

theorem SyntaxTree.le_of_indexOfName? {groups : List (Option String)} {name : String} {n : Nat}
    (h : indexOfName? groups name = some n) : n ≤ groups.length := by
  obtain ⟨i, found, rfl⟩ := Option.map_eq_some_iff.mp h
  exact (List.idxOf?_eq_some_iff.mp found).1

namespace Lowering

open RegexEngine.Tree

variable {α β : Type} {total most : Nat}

/-- A step declines, or takes no more than some room of the pool of classes. Of its answer, `post`
is true. -/
def Takes (total most : Nat) (step : Step α) (post : α → Prop) : Prop :=
  ∀ l : Lowering, l.classes.size + most ≤ total →
    match step.run l with
    | .ok (v, l') => l'.classes.size ≤ l.classes.size + most ∧ post v
    | .error e => e.Declines total

section Steps

variable {step : Step α} {mid : α → Prop} {post : β → Prop}

theorem takes_pure {v : β} (h : post v) : Takes total most (pure v) post :=
  fun _ _ => ⟨Nat.le_add_right _ _, h⟩

theorem takes_throw {e : Error} (h : e.Declines total) : Takes total most (throw e) post :=
  fun _ _ => h

theorem takes_bind {more : Nat} {next : α → Step β} (h : Takes total most step mid)
    (hnext : ∀ v, mid v → Takes total more (next v) post) :
    Takes total (most + more) (step >>= next) post := by
  intro l fits
  have first := h l (by omega)
  rw [StateT.run_bind]
  cases hrun : step.run l with
  | error e =>
    rw [hrun] at first
    exact first
  | ok answer =>
    obtain ⟨v, l'⟩ := answer
    rw [hrun] at first
    obtain ⟨grown, hv⟩ := first
    have second := hnext v hv l' (by omega)
    change match (next v).run l' with
      | .ok (w, l'') => l''.classes.size ≤ l.classes.size + (most + more) ∧ post w
      | .error e => e.Declines total
    cases hrun' : (next v).run l' with
    | error e =>
      rw [hrun'] at second
      exact second
    | ok answer' =>
      rw [hrun'] at second
      exact ⟨by have := second.1; omega, second.2⟩

theorem Takes.weaken {less : Nat} {post : α → Prop} (h : Takes total less step mid)
    (le : less ≤ most) (hpost : ∀ v, mid v → post v) : Takes total most step post := by
  intro l fits
  have taken := h l (by omega)
  cases hrun : step.run l with
  | error e =>
    rw [hrun] at taken
    exact taken
  | ok answer =>
    rw [hrun] at taken
    exact ⟨by have := taken.1; omega, hpost _ taken.2⟩

theorem Takes.imp {post : α → Prop} (h : Takes total most step mid)
    (hpost : ∀ v, mid v → post v) : Takes total most step post :=
  h.weaken (Nat.le_refl most) hpost

theorem Takes.mono {less : Nat} (h : Takes total less step mid) (le : less ≤ most) :
    Takes total most step mid :=
  h.weaken le fun _ hv => hv

/-- The room of an expression itself is for instructions, unless it is a class. -/
theorem Takes.around (h : Takes total most step mid) : Takes total (4 + most) step mid :=
  h.mono (Nat.le_add_left most 4)

theorem takes_map {f : α → β} (h : Takes total most step mid) (hf : ∀ v, mid v → post (f v)) :
    Takes total most (do pure (f (← step))) post := by
  have last (v : α) (hv : mid v) : Takes total 0 (pure (f v)) post := takes_pure (hf v hv)
  exact takes_bind h last

/-- A step that leaves the classes alone first. -/
theorem takes_free {next : α → Step β} (h : Takes total 0 step mid)
    (hnext : ∀ v, mid v → Takes total most (next v) post) :
    Takes total most (step >>= next) post :=
  (takes_bind h hnext).mono (Nat.le_of_eq (Nat.zero_add most))

theorem takes_flags? {next : Flags → Step β} (h : ∀ flags, Takes total most (next flags) post) :
    Takes total most (flags? >>= next) post :=
  fun l fits => h l.flags l fits

theorem takes_nocase? {next : Bool → Step β} (h : ∀ nocase, Takes total most (next nocase) post) :
    Takes total most (nocase? >>= next) post :=
  fun l fits => h (l.flags.contains .nocase) l fits

theorem takes_setFlags (change : Flags → Flags) :
    Takes total 0 (modify fun l => { l with flags := change l.flags }) fun _ => True :=
  fun _ _ => ⟨Nat.le_refl _, trivial⟩

theorem takes_keepingFlags (h : Takes total most step mid) :
    Takes total most (keepingFlags step) mid := by
  refine takes_flags? fun saved => ?_
  have restored (v : α) (hv : mid v) : Takes total 0 (do
      modify fun l => { l with flags := saved }
      pure v) mid :=
    takes_free (takes_setFlags fun _ => saved) fun _ _ => takes_pure hv
  exact takes_bind h restored

/-- What does not depend on the state. -/
theorem takes_lift {x : Except Error α}
    (h : match x with | .ok v => mid v | .error e => e.Declines total) :
    Takes total 0 (liftM x : Step α) mid := by
  intro l _
  cases x with
  | ok v => exact ⟨Nat.le_refl _, h⟩
  | error e => exact h

theorem run_classInstr (spec : List Char) (l : Lowering) :
    (classInstr spec).run l =
      match l.classes.intern spec with
      | .ok ((offset, length), classes) => .ok (.cls offset length, { l with classes := classes })
      | .error e => .error e := by
  unfold classInstr
  simp only [StateT.run_bind, StateT.run_get, pure_bind]
  cases l.classes.intern spec <;> rfl

theorem takes_classInstr {spec : List Char} {matcher : Matcher}
    (h : Matcher.parse spec = .ok matcher) :
    Takes total (Text.byteLength spec) (classInstr spec) fun _ => True := by
  intro l fits
  have interned := l.classes.intern_room h
  rw [run_classInstr]
  cases hintern : l.classes.intern spec with
  | error e =>
    rw [hintern] at interned
    exact interned.mono fits
  | ok answer =>
    rw [hintern] at interned
    exact ⟨interned, trivial⟩

theorem takes_groupOperand {group : Nat} (h : group ≤ total) :
    Takes total 0 (groupOperand group : Step Nat) fun _ => True := by
  refine takes_lift ?_
  unfold groupOperand
  by_cases narrow : group ≤ Text.maxWord32
  · rw [if_pos narrow]
    trivial
  · rw [if_neg narrow]
    have wide : UInt32.size ≤ group := Nat.lt_of_not_le narrow
    exact .inr ⟨rfl, Nat.le_trans wide h⟩

/-- A reference that names a group is resolved. -/
theorem takes_resolve {groups : List (Option String)} {ref : GroupRef} (names : ref.Names groups) :
    Takes total 0 (resolve groups ref : Step Nat) fun group => group ≤ groups.length := by
  refine takes_lift ?_
  cases ref with
  | number n =>
    have found : resolve groups (.number n) = .ok n := if_pos names
    rw [found]
    exact names.2
  | name text =>
    obtain ⟨n, found⟩ := Option.isSome_iff_exists.mp names
    simp only [resolve, found]
    exact SyntaxTree.le_of_indexOfName? found

end Steps

/-! Expressions. -/

variable {groups : List (Option String)}

theorem takes_repetition {lowerAt : Nat → Step (List Instr)} {longest : Nat}
    (h : ∀ at_, Takes total most (lowerAt at_) fun code => code.length + 2 ≤ longest)
    (at_ min : Nat) (max : Option Nat) (greedy : Bool) :
    Takes total most (repetition at_ min max greedy lowerAt) fun code => code.length ≤ longest := by
  have wraps {start : Nat} {wrap : List Instr → List Instr}
      (hwrap : ∀ code, (wrap code).length ≤ code.length + 2) :
      Takes total most (do pure (wrap (← lowerAt start))) fun code => code.length ≤ longest :=
    takes_map (h start) fun code hcode => Nat.le_trans (hwrap code) hcode
  unfold repetition
  split
  · exact wraps fun code => by simp
  · exact wraps fun code => by simp
  · exact wraps fun code => by simp
  · exact (h at_).imp fun code hcode => by omega
  · exact takes_pure (Nat.zero_le longest)
  · exact wraps fun code => by simp

theorem branchesLength_cons_le (code : List Instr) (codes : List (List Instr)) :
    branchesLength (code :: codes) ≤ code.length + 2 + branchesLength codes := by
  cases codes <;> simp only [branchesLength] <;> omega

/-- The room of an expression without others inside. -/
theorem takes_leaf {leaf : Tree} {code : List Instr} (hleaf : leaf.preorder = [leaf])
    (hcode : code.length ≤ 1) :
    Takes total leaf.room (pure code : Step (List Instr))
      fun code => code.length + 2 ≤ leaf.room := by
  have own : 4 ≤ leaf.ownRoom := by
    unfold ownRoom
    split <;> omega
  have one : leaf.room = leaf.ownRoom := by simp [room, hleaf]
  exact takes_pure (by omega)

mutual

/-- The program of a checked expression takes no more room than the expression, and some
instructions less. Those are for what the program of another expression puts around it. -/
theorem takes_lower (hgroups : groups.length ≤ total) : (t : Tree) → t.Each (Checked groups) →
    (at_ : Nat) → Takes total t.room (lower groups at_ t) fun code => code.length + 2 ≤ t.room
  | .empty, _, _ | .comment _, _, _ => takes_leaf rfl (Nat.zero_le 1)
  | .invalid, _, _ | .boundary _, _, _ | .verb .fail, _, _ | .verb .accept, _, _ =>
    takes_leaf rfl (Nat.le_refl 1)
  | .literal _, _, _ => takes_nocase? fun _ => takes_leaf rfl (Nat.le_refl 1)
  | .dot, _, _ | .anchor _, _, _ => takes_flags? fun _ => takes_leaf rfl (Nat.le_refl 1)
  | .cls kind spec, h, _ => by
    obtain ⟨set, read⟩ := h.self
    refine takes_flags? fun flags => ?_
    have marked : Text.byteLength (Blueprint.caseMark flags) ≤ 4 := by
      unfold Blueprint.caseMark
      split <;> decide
    have own : (cls kind spec).room = 4 + Text.byteLength spec.toList := by
      simp [room, ownRoom]
    refine (takes_map (takes_classInstr (Matcher.parse_cls (flags.contains .nocase) read))
      fun i _ => ?_).mono ?_
    · rw [own, List.length_singleton]
      omega
    · rw [Text.byteLength_append, own]
      exact Nat.add_le_add_right marked _
  | .group child, h, at_ => by
    have inner := takes_lower hgroups child (each_group.mp h).2 at_
    rw [room_group]
    exact ((takes_keepingFlags inner).imp fun _ hcode => by omega).around
  | .scope opts child, h, at_ => by
    have inner := takes_lower hgroups child ((each_scope ..).mp h).2 at_
    rw [room_scope]
    have kept := takes_keepingFlags (takes_free (takes_setFlags opts.apply) fun _ _ => inner)
    exact (kept.imp fun _ hcode => by omega).around
  | .capture index _ child, h, at_ => by
    obtain ⟨hindex, hchild⟩ := (each_capture ..).mp h
    have inner := takes_lower hgroups child hchild (at_ + 1)
    rw [room_capture]
    refine takes_keepingFlags (takes_free (takes_groupOperand (Nat.le_trans hindex hgroups))
      fun group _ => (takes_map inner fun code hcode => ?_).around)
    simp only [List.length_append, List.length_cons, List.length_nil]
    omega
  | .backref ref, h, _ => by
    have names : ref.Names groups := h.self
    refine takes_free (takes_resolve names) fun group hgroup => ?_
    refine takes_free (takes_groupOperand (Nat.le_trans hgroup hgroups)) fun _ _ => ?_
    exact takes_nocase? fun _ => takes_leaf rfl (Nat.le_refl 1)
  | .repetition q child, h, at_ => by
    have inner (start : Nat) := takes_lower hgroups child ((each_repetition ..).mp h).2 start
    rw [room_repetition, lower]
    by_cases possessive : q.possessive = true
    · rw [if_pos possessive]
      exact takes_throw (.inl rfl)
    · rw [if_neg possessive]
      refine takes_flags? fun flags => ?_
      exact ((takes_repetition inner at_ q.min q.max _).imp fun code hcode => by omega).around
  | .look kind child, h, at_ => by
    have inner := takes_lower hgroups child ((each_look ..).mp h).2 (at_ + 1)
    rw [room_look]
    refine (takes_map (takes_keepingFlags inner) fun code hcode => ?_).around
    simp only [List.length_append, List.length_cons, List.length_nil]
    omega
  | .options opts, _, _ =>
    takes_free (takes_setFlags opts.apply) fun _ _ => takes_leaf rfl (Nat.zero_le 1)
  | .atomic _, _, _ | .groupCond _ _ _, _, _ | .lookCond _ _ _ _, _, _ | .verb .commit, _, _ =>
    takes_throw (.inl rfl)
  | .alt items, h, at_ => by
    have inner := takes_lowerBranches hgroups items (each_alt.mp h).2 at_
    rw [room_alt]
    refine takes_keepingFlags (takes_map inner fun codes hcodes => ?_).around
    rw [branchesLength_joinBranches]
    omega
  | .concat items, h, at_ => by
    have inner := takes_lowerAll hgroups items (each_concat.mp h).2 at_
    rw [room_concat]
    exact (inner.imp fun _ hcode => by omega).around

/-- Alternatives, with what joins them. -/
theorem takes_lowerBranches (hgroups : groups.length ≤ total) : (items : List Tree) →
    (∀ item ∈ items, item.Each (Checked groups)) → (at_ : Nat) →
      Takes total (roomAll items) (lowerBranches groups at_ items)
        fun codes => branchesLength codes ≤ roomAll items
  | [], _, _ => takes_pure (by decide)
  | [item], h, at_ => by
    have inner := takes_lower hgroups item (List.forall_mem_singleton.mp h) at_
    rw [roomAll_cons]
    exact takes_map inner fun code hcode => by simp only [branchesLength]; omega
  | item :: next :: rest, h, at_ => by
    obtain ⟨hitem, hrest⟩ := List.forall_mem_cons.mp h
    rw [roomAll_cons]
    refine takes_bind (takes_lower hgroups item hitem (at_ + 1)) fun code hcode => ?_
    refine takes_map (takes_lowerBranches hgroups (next :: rest) hrest _) fun codes hcodes => ?_
    have joined := branchesLength_cons_le code codes
    omega

theorem takes_lowerAll (hgroups : groups.length ≤ total) : (items : List Tree) →
    (∀ item ∈ items, item.Each (Checked groups)) → (at_ : Nat) →
      Takes total (roomAll items) (lowerAll groups at_ items)
        fun code => code.length ≤ roomAll items
  | [], _, _ => takes_pure (by decide)
  | item :: rest, h, at_ => by
    obtain ⟨hitem, hrest⟩ := List.forall_mem_cons.mp h
    rw [roomAll_cons]
    refine takes_bind (takes_lower hgroups item hitem at_) fun code hcode => ?_
    refine takes_map (takes_lowerAll hgroups rest hrest _) fun more hmore => ?_
    rw [List.length_append]
    omega

end

end Lowering

/-- Each group of a tree that was made takes some room. -/
theorem SyntaxTree.Made.groups_le_room {tree : SyntaxTree} (made : tree.Made) :
    tree.groups.length ≤ tree.root.room := by
  have count : tree.root.indices.length = tree.groups.length := by simp [made.indices_eq]
  have listed : tree.root.indices.length ≤ tree.root.preorder.length := by
    rw [Tree.indices_eq, List.length_map]
    exact List.length_filterMap_le _ _
  have room := tree.root.length_preorder_le_room
  omega

/-- The program of a checked tree is declined only for an expression that is not supported, or when
words are too narrow for it. -/
theorem Program.ofTree_declines {tree : SyntaxTree} (made : tree.Made)
    (h : tree.root.Each (Tree.Checked tree.groups)) {e : Error} (failed : ofTree tree = .error e) :
    e.Declines tree.root.room := by
  have taken := Lowering.takes_lower made.groups_le_room tree.root h 0 ⟨tree.flags, .empty⟩
    (Nat.le_of_eq (Nat.zero_add _))
  unfold ofTree at failed
  cases hrun : (Lowering.lower tree.groups 0 tree.root).run ⟨tree.flags, .empty⟩ with
  | error e' =>
    rw [hrun] at taken failed
    cases failed
    exact taken
  | ok answer =>
    rw [hrun] at taken failed
    have short : answer.1.length + 2 ≤ tree.root.room := taken.2
    simp only [bind, Except.bind, ofCode, List.length_append, List.length_singleton] at failed
    split at failed
    next long =>
      cases failed
      have wide : UInt32.size < answer.1.length + 1 := long
      exact .inr ⟨rfl, by omega⟩
    next => cases failed

end RegexEngine
