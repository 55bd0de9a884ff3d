import RegexEngine.Proofs.CharClass.Strict
import RegexEngine.Proofs.Tree.Numbers
import RegexEngine.SyntaxTree.Validator

/-!
What the check of a tree promises to those that compile it. Of every expression in the tree, classes
can be read, references name groups that are there, and the numbers of groups are not beyond their
count. The last is no rule that is checked, but what numbering the groups brings about.
-/

namespace RegexEngine

/-- A reference names one of some groups. -/
def GroupRef.Names (groups : List (Option String)) : GroupRef → Prop
  | number n => 0 < n ∧ n ≤ groups.length
  | name text => (SyntaxTree.indexOfName? groups text).isSome = true

namespace Tree

/-- Something holds of every expression in a tree. -/
def Each (P : Tree → Prop) (t : Tree) : Prop := ∀ node ∈ t.preorder, P node

section Constructors

variable {P : Tree → Prop} {t u v : Tree} {items : List Tree}

theorem Each.self (h : t.Each P) : P t := by
  refine h t ?_
  cases t with
  | groupCond ref yes no => cases no <;> simp
  | lookCond kind test yes no => cases no <;> simp
  | _ => simp

theorem each_capture (index : Nat) (name : Option String) :
    (capture index name t).Each P ↔ P (capture index name t) ∧ t.Each P := by
  simp [Each]

theorem each_group : (group t).Each P ↔ P (group t) ∧ t.Each P := by
  simp [Each]

theorem each_scope (opts : OptionSet) : (scope opts t).Each P ↔ P (scope opts t) ∧ t.Each P := by
  simp [Each]

theorem each_repetition (q : Quantifier) :
    (repetition q t).Each P ↔ P (repetition q t) ∧ t.Each P := by
  simp [Each]

theorem each_look (kind : LookKind) : (look kind t).Each P ↔ P (look kind t) ∧ t.Each P := by
  simp [Each]

theorem each_atomic : (atomic t).Each P ↔ P (atomic t) ∧ t.Each P := by
  simp [Each]

theorem each_groupCond (ref : GroupRef) (no : Option Tree) :
    (groupCond ref t no).Each P ↔ P (groupCond ref t no) ∧ t.Each P ∧ ∀ u ∈ no, u.Each P := by
  cases no <;> simp [Each, forall_and, or_imp]

theorem each_lookCond (kind : LookKind) (no : Option Tree) :
    (lookCond kind t u no).Each P ↔
      P (lookCond kind t u no) ∧ t.Each P ∧ u.Each P ∧ ∀ v ∈ no, v.Each P := by
  cases no <;> simp [Each, forall_and, or_imp]

theorem each_alt : (alt items).Each P ↔ P (alt items) ∧ ∀ item ∈ items, item.Each P := by
  simp only [Each, preorder, List.forall_mem_cons, mem_preorders]
  grind

theorem each_concat :
    (concat items).Each P ↔ P (concat items) ∧ ∀ item ∈ items, item.Each P := by
  simp only [Each, preorder, List.forall_mem_cons, mem_preorders]
  grind

end Constructors

/-- What an expression has to be like to be compiled, in a pattern with these groups. -/
def Checked (groups : List (Option String)) : Tree → Prop
  | capture index _ _ => index ≤ groups.length
  | cls _ spec => ∃ set, CharClass.parse spec = .ok set
  | backref ref | groupCond ref _ _ => ref.Names groups
  | _ => True

@[simp]
theorem length_groupNames (t : Tree) : t.groupNames.length = t.indices.length := by
  simp [groupNames, indices_eq]

end Tree

namespace SyntaxTree

/-- The groups of a tree were numbered when it was made, and are listed in it. -/
def Made (tree : SyntaxTree) : Prop :=
  ∃ root : Tree, tree.root = root.renumber ∧ tree.groups = root.renumber.groupNames

theorem made_ofTree (root : Tree) (flags : Flags) : (ofTree root flags).Made := ⟨root, rfl, rfl⟩

/-- A tree that was read was made of what was read. -/
theorem made_parse {source : List Char} {flags : Flags} {maxDepth : Nat} {tree : SyntaxTree}
    (h : parse source flags maxDepth = .ok tree) : tree.Made := by
  have reads (fuel : Nat) : Returns (Parser.pattern flags fuel) Made :=
    returns_bind_any fun opening => returns_bind_any fun first => returns_bind_any fun read =>
      returns_bind_any fun _ => returns_pure ⟨read.1, rfl, rfl⟩
  obtain ⟨fuel, p, p', run⟩ := exists_run_of_parse h
  exact reads fuel p tree p' run

variable {tree : SyntaxTree}

/-- The groups of a tree that was made have numbers up to their count. -/
theorem Made.indices_eq (made : tree.Made) :
    tree.root.indices = List.range' 1 tree.groups.length := by
  obtain ⟨root, hroot, hgroups⟩ := made
  rw [hroot, hgroups, Tree.length_groupNames, Tree.indices_renumber]
  simp

theorem Made.index_bounds (made : tree.Made) {index : Nat} {name : Option String} {child : Tree}
    (mem : .capture index name child ∈ tree.root.preorder) :
    0 < index ∧ index ≤ tree.groups.length := by
  have listed : index ∈ tree.root.indices :=
    List.mem_flatMap.mpr ⟨_, mem, List.mem_singleton_self index⟩
  rw [made.indices_eq, List.mem_range'_1] at listed
  omega

/-- Of a whole tree, only the groups and one of the flags count for what an expression may be. -/
theorem checkNode_congr {tree' : SyntaxTree} (hgroups : tree.groups = tree'.groups)
    (hstrict : tree.flags.contains .strict = tree'.flags.contains .strict) (seen : List String)
    (node : Tree) : tree.checkNode seen node = tree'.checkNode seen node := by
  unfold checkNode hasGroup hasName groupCount groupIndex?
  rw [hgroups]
  split <;> try rfl
  rw [hstrict]

theorem checkNodes_congr {tree' : SyntaxTree} (hgroups : tree.groups = tree'.groups)
    (hstrict : tree.flags.contains .strict = tree'.flags.contains .strict) (nodes : List Tree) :
    ∀ seen, tree.checkNodes seen nodes = tree'.checkNodes seen nodes := by
  induction nodes with
  | nil => exact fun _ => rfl
  | cons node rest ih =>
    intro seen
    rw [checkNodes, checkNodes, checkNode_congr hgroups hstrict]
    simp only [ih]

/-- Each expression is checked, against some names before it. -/
theorem checkNode_of_checkNodes {nodes : List Tree} {seen : List String}
    (h : tree.checkNodes seen nodes = .ok ()) :
    ∀ node ∈ nodes, ∃ seen, tree.checkNode seen node = .ok () := by
  induction nodes generalizing seen with
  | nil => simp
  | cons node rest ih =>
    obtain ⟨⟨⟩, first, more⟩ := bind_eq_ok.mp h
    exact List.forall_mem_cons.mpr ⟨⟨seen, first⟩, ih more⟩

theorem require_eq_ok {holds : Bool} {fault : PatternFault} :
    require holds fault = .ok () ↔ holds = true := by
  cases holds <;> simp [require]

/-- Every expression of a tree that passes the check can be compiled. -/
theorem checked_of_validate {maxDepth : Nat} (made : tree.Made)
    (h : tree.validate maxDepth = .ok ()) : tree.root.Each (Tree.Checked tree.groups) := by
  intro node mem
  unfold validate at h
  dsimp only at h
  split at h
  · cases h
  obtain ⟨seen, passed⟩ := checkNode_of_checkNodes h node mem
  have numbered {n : Nat} (h : tree.hasGroup n = true) : (GroupRef.number n).Names tree.groups := by
    rwa [hasGroup, Bool.and_eq_true, decide_eq_true_iff, decide_eq_true_iff] at h
  cases node with
  | capture index name child => exact (made.index_bounds mem).2
  | cls kind spec =>
    obtain ⟨set, read, _⟩ := bind_eq_ok.mp passed
    exact ⟨set, CharClass.parseWith_of_strict read⟩
  | backref ref =>
    cases ref with
    | number n => exact numbered (require_eq_ok.mp passed)
    | name text => exact require_eq_ok.mp passed
  | groupCond ref yes no =>
    cases ref with
    | number n => exact numbered (require_eq_ok.mp passed)
    | name text => exact require_eq_ok.mp passed
  | _ => trivial

end SyntaxTree

end RegexEngine
