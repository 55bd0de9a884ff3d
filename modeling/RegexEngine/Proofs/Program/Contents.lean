import RegexEngine.Proofs.Automaton.Actions
import RegexEngine.Proofs.Program.Blocks
import RegexEngine.Proofs.Program.Counters
import RegexEngine.Proofs.Program.Room

/-!
What stands in programs. Every class that an instruction refers to is in the pool of its program,
since the pool only grows while a program is put together. And what holds of all actions that an
expression or an automaton asks for holds of what the instructions do: they refer to the same
groups, and look around in the same ways. Programs of automata count no rounds, so any chart of a
group says where their ways can be.
-/

namespace RegexEngine

/-- An instruction refers to a class that is known, does one of some actions, counts rounds where
that may be done, or is none of these. -/
def Instr.Stems (ok : Action → Prop) (counts : Prop) (pool : ClassPool) : Instr → Prop
  | cls offset length => (pool.matcher? offset length).isSome = true
  | backref group nocase => ok (.backref group nocase)
  | look kind _ _ => ∀ body, ok (.look kind body)
  | repeatStart _ _ _ _ | repeatEnd _ => counts
  | _ => True

/-- No block of a state counts rounds. -/
def Draft.Stems (ok : Action → Prop) (pool : ClassPool) : Draft → Prop
  | ready i => i.Stems ok False pool
  | look kind _ _ => ∀ body, ok (.look kind body)
  | jump _ => True

/-- All classes of one pool are known in the other, at the same places. -/
def ClassPool.Within (pool larger : ClassPool) : Prop :=
  ∀ offset length, (pool.matcher? offset length).isSome = true →
    (larger.matcher? offset length).isSome = true

namespace Lowering

/-- A step only adds classes to the pool, and while the pool has these, its answer is as described.
-/
def Learns {α : Type} (step : Step α) (post : ClassPool → α → Prop) : Prop :=
  ∀ (l : Lowering) (v : α) (l' : Lowering), step.run l = .ok (v, l') →
    l.classes.Within l'.classes ∧ ∀ pool, l'.classes.Within pool → post pool v

section Steps

variable {α β : Type} {step : Step α} {post : ClassPool → α → Prop}

theorem learns_pure {v : α} (h : ∀ pool, post pool v) : Learns (pure v) post := by
  intro l v' l' hrun
  cases hrun
  exact ⟨fun _ _ h => h, fun pool _ => h pool⟩

theorem learns_throw (e : Error) : Learns (throw e : Step α) post := by
  intro l v l' hrun
  cases hrun

theorem learns_lift {x : Except Error α} (h : ∀ pool v, x = .ok v → post pool v) :
    Learns (x : Step α) post := by
  intro l v l' hrun
  cases x with
  | error e => cases hrun
  | ok value =>
    cases hrun
    exact ⟨fun _ _ h => h, fun pool _ => h pool v rfl⟩

theorem learns_bind {next : α → Step β} {mid : ClassPool → α → Prop}
    {post : ClassPool → β → Prop} (h : Learns step mid)
    (hnext : ∀ v, Learns (next v) fun pool w => mid pool v → post pool w) :
    Learns (step >>= next) post := by
  intro l w l₂ hrun
  rw [StateT.run_bind] at hrun
  cases hv : step.run l with
  | error e =>
    rw [hv] at hrun
    cases hrun
  | ok answer =>
    rw [hv] at hrun
    obtain ⟨hfirst, hmid⟩ := h l answer.1 answer.2 hv
    obtain ⟨hsecond, hpost⟩ := hnext answer.1 answer.2 w l₂ hrun
    refine ⟨fun offset length hknown => hsecond _ _ (hfirst _ _ hknown), fun pool hpool => ?_⟩
    exact hpost pool hpool (hmid pool fun offset length hknown => hpool _ _ (hsecond _ _ hknown))

theorem learns_flags? {next : Flags → Step β} {post : ClassPool → β → Prop}
    (h : ∀ flags, Learns (next flags) post) : Learns (flags? >>= next) post :=
  fun l => h l.flags l

theorem learns_nocase? {next : Bool → Step β} {post : ClassPool → β → Prop}
    (h : ∀ nocase, Learns (next nocase) post) : Learns (nocase? >>= next) post :=
  fun l => h (l.flags.contains .nocase) l

theorem learns_withOptions {next : Step β} {post : ClassPool → β → Prop} (h : Learns next post)
    (opts : OptionSet) :
    Learns (do modify fun l => { l with flags := opts.apply l.flags }; next) post :=
  fun l => h { l with flags := opts.apply l.flags }

theorem learns_keepingFlags (h : Learns step post) : Learns (keepingFlags step) post := by
  apply learns_flags?
  intro flags
  refine learns_bind h fun v => ?_
  intro l w l' hrun
  cases hrun
  exact ⟨fun _ _ h => h, fun _ _ h => h⟩

theorem matcher?_cons (e : PoolEntry) (p : ClassPool) (text : List Char) (offset length : Nat) :
    ClassPool.matcher? ⟨text, e :: p.entries⟩ offset length =
      if e.offset == offset && e.length == length then some e.matcher
      else p.matcher? offset length := by
  simp only [ClassPool.matcher?, ClassPool.entry?, List.find?_cons]
  split <;> simp_all

/-- A class that was put into the pool is known. -/
theorem intern_ok {p p' : ClassPool} {spec : List Char} {place : Nat × Nat}
    (h : p.intern spec = .ok (place, p')) :
    p.Within p' ∧ (p'.matcher? place.1 place.2).isSome = true := by
  unfold ClassPool.intern at h
  split at h
  · rename_i e hfind
    cases h
    refine ⟨fun _ _ h => h, ?_⟩
    rw [ClassPool.matcher?, Option.isSome_map, ClassPool.entry?, List.find?_isSome]
    exact ⟨e, List.mem_of_find?_eq_some hfind, by simp⟩
  · cases hparse : Matcher.parse spec with
    | error e =>
      rw [hparse] at h
      cases h
    | ok matcher =>
      rw [hparse] at h
      dsimp only [bind, Except.bind] at h
      split at h
      · cases h
      · split at h
        · cases h
        · cases h
          refine ⟨fun offset length hknown => ?_, ?_⟩
          · rw [matcher?_cons]
            split
            · rfl
            · exact hknown
          · rw [matcher?_cons, if_pos (by simp)]
            rfl

theorem learns_classInstr (ok : Action → Prop) (counts : Prop) (spec : List Char) :
    Learns (classInstr spec) fun pool i => i.Stems ok counts pool := by
  intro l i l' hrun
  rw [run_classInstr] at hrun
  cases hintern : l.classes.intern spec with
  | error e =>
    rw [hintern] at hrun
    cases hrun
  | ok answer =>
    rw [hintern] at hrun
    cases hrun
    obtain ⟨hwithin, hknown⟩ := intern_ok hintern
    exact ⟨hwithin, fun pool hpool => hpool _ _ hknown⟩

theorem learns_groupOperand (group : Nat) :
    Learns (groupOperand group : Step Nat) fun _ operand => operand = group :=
  learns_lift fun _ operand h => by
    unfold groupOperand at h
    split at h <;> cases h
    rfl

end Steps

/-! Expressions. -/

section Trees

open RegexEngine.Tree

variable {groups : List (Option String)} {ok : Action → Prop} {counts : Prop}

/-- All instructions stem from some actions. -/
abbrev AllStem (ok : Action → Prop) (counts : Prop) (pool : ClassPool) (code : List Instr) :
    Prop :=
  ∀ i ∈ code, i.Stems ok counts pool

theorem resolved_of_resolve {ref : GroupRef} {group : Nat} (h : resolve groups ref = .ok group) :
    Blueprint.resolved groups ref = .ok group := by
  cases ref with
  | number n =>
    simp only [resolve] at h
    split at h
    · rename_i hn
      cases h
      exact if_pos hn
    · cases h
  | name name =>
    simp only [resolve] at h
    split at h
    · rename_i n hn
      cases h
      simp only [Blueprint.resolved, hn]
    · cases h

theorem learns_resolve (ref : GroupRef) :
    Learns (resolve groups ref : Step Nat) fun _ group =>
      Blueprint.resolved groups ref = .ok group :=
  learns_lift fun _ _ hgroup => resolved_of_resolve hgroup

theorem stems_choice (greedy : Bool) (enter exit : Nat) (pool : ClassPool) :
    (choice greedy enter exit).Stems ok True pool := by
  unfold choice
  split <;> trivial

theorem allStem_concat {pool : ClassPool} {i : Instr} {code : List Instr}
    (h : AllStem ok counts pool code) (hi : i.Stems ok counts pool) :
    AllStem ok counts pool (code ++ [i]) :=
  List.forall_mem_append.mpr ⟨h, by simpa using hi⟩

theorem learns_single {i : Instr} (h : ∀ pool, i.Stems ok True pool) :
    Learns (pure [i]) (fun pool code => AllStem ok True pool code) :=
  learns_pure fun pool => List.forall_mem_cons.mpr ⟨h pool, List.forall_mem_nil _⟩

theorem learns_nil : Learns (pure []) (fun pool code => AllStem ok True pool code) :=
  learns_pure fun _ => List.forall_mem_nil _

theorem allStem_joinBranches {pool : ClassPool} (stop : Nat) : ∀ (at_ : Nat)
    (codes : List (List Instr)), (∀ code ∈ codes, AllStem ok True pool code) →
      AllStem ok True pool (joinBranches at_ stop codes)
  | _, [], _ => List.forall_mem_nil _
  | _, [code], h => h code List.mem_cons_self
  | at_, code :: next :: rest, h => by
    obtain ⟨hcode, hrest⟩ := List.forall_mem_cons.mp h
    have hjoined := allStem_joinBranches stop (at_ + code.length + 2) (next :: rest) hrest
    refine List.forall_mem_append.mpr ⟨List.forall_mem_cons.mpr ⟨trivial, hcode⟩, ?_⟩
    exact List.forall_mem_cons.mpr ⟨trivial, hjoined⟩

theorem learns_repetition {lowerAt : Nat → Step (List Instr)}
    (h : ∀ at_, Learns (lowerAt at_) (AllStem ok True)) (at_ min : Nat) (max : Option Nat)
    (greedy : Bool) : Learns (repetition at_ min max greedy lowerAt) (AllStem ok True) := by
  unfold repetition
  split
  · refine learns_bind (h _) fun code => learns_pure fun pool hcode => ?_
    exact allStem_concat (List.forall_mem_cons.mpr ⟨stems_choice .., hcode⟩) trivial
  · refine learns_bind (h _) fun code => learns_pure fun pool hcode => ?_
    exact allStem_concat hcode (stems_choice ..)
  · refine learns_bind (h _) fun code => learns_pure fun pool hcode => ?_
    exact List.forall_mem_cons.mpr ⟨stems_choice .., hcode⟩
  · exact h _
  · exact learns_nil
  · refine learns_bind (h _) fun code => learns_pure fun pool hcode => ?_
    exact allStem_concat (List.forall_mem_cons.mpr ⟨trivial, hcode⟩) trivial

mutual

/-- The instructions of an expression do what the expressions in it ask for. -/
theorem learns_lower : (t : Tree) → t.Each (AsksFor groups ok) → (at_ : Nat) →
    Learns (lower groups at_ t) (AllStem ok True)
  | .empty, _, _ | .comment _, _, _ => learns_nil
  | .literal _, _, _ => learns_nocase? fun _ => learns_single fun _ => trivial
  | .dot, _, _ => learns_flags? fun _ => learns_single fun _ => trivial
  | .cls _ _, _, _ => by
    refine learns_flags? fun _ => learns_bind (learns_classInstr ok True _) fun i => ?_
    exact learns_pure fun pool hi => List.forall_mem_cons.mpr ⟨hi, List.forall_mem_nil _⟩
  | .group c, h, at_ => learns_keepingFlags (learns_lower c (each_group.mp h).2 at_)
  | .scope opts c, h, at_ => learns_keepingFlags
    (learns_withOptions (learns_lower c ((each_scope opts).mp h).2 at_) opts)
  | .capture index name c, h, at_ => by
    have hchild := learns_lower c ((each_capture index name).mp h).2 (at_ + 1)
    refine learns_keepingFlags (learns_bind (learns_groupOperand index) fun group => ?_)
    refine learns_bind hchild fun code => ?_
    refine learns_pure fun pool hcode _ => ?_
    exact allStem_concat (List.forall_mem_cons.mpr ⟨trivial, hcode⟩) trivial
  | .backref ref, h, _ => by
    have hself : AsksFor groups ok (.backref ref) := h.self
    refine learns_bind (learns_resolve ref) fun group => ?_
    refine learns_bind (learns_groupOperand group) fun operand => learns_nocase? fun nocase => ?_
    refine learns_pure fun pool hoperand hgroup => ?_
    subst hoperand
    exact List.forall_mem_cons.mpr ⟨hself operand nocase hgroup, List.forall_mem_nil _⟩
  | .repetition q c, h, at_ => by
    rw [lower]
    split
    · exact learns_throw _
    · refine learns_flags? fun _ => learns_repetition (fun at_ => ?_) _ _ _ _
      exact learns_lower c ((each_repetition q).mp h).2 at_
  | .anchor _, _, _ => learns_flags? fun _ => learns_single fun _ => trivial
  | .boundary _, _, _ => learns_single fun _ => trivial
  | .look kind c, h, at_ => by
    obtain ⟨hkind, hchild⟩ := (each_look kind).mp h
    refine learns_bind (learns_keepingFlags (learns_lower c hchild (at_ + 1))) fun code => ?_
    refine learns_pure fun pool hcode => ?_
    exact allStem_concat (List.forall_mem_cons.mpr ⟨hkind, hcode⟩) trivial
  | .options opts, _, _ => learns_withOptions learns_nil opts
  | .atomic _, _, _ | .groupCond _ _ _, _, _ | .lookCond _ _ _ _, _, _ | .verb .commit, _, _ =>
    learns_throw _
  | .verb .fail, _, _ | .invalid, _, _ | .verb .accept, _, _ => learns_single fun _ => trivial
  | .alt items, h, at_ => by
    have hitems := learns_lowerBranches items (each_alt.mp h).2 at_
    refine learns_keepingFlags (learns_bind hitems fun codes => ?_)
    exact learns_pure fun pool hcodes => allStem_joinBranches _ _ _ hcodes
  | .concat items, h, at_ => learns_lowerAll items (each_concat.mp h).2 at_

theorem learns_lowerAll : (items : List Tree) →
    (∀ item ∈ items, item.Each (AsksFor groups ok)) → (at_ : Nat) →
      Learns (lowerAll groups at_ items) (AllStem ok True)
  | [], _, _ => learns_nil
  | item :: rest, h, at_ => by
    obtain ⟨hitem, hrest⟩ := List.forall_mem_cons.mp h
    refine learns_bind (learns_lower item hitem at_) fun code => ?_
    refine learns_bind (learns_lowerAll rest hrest _) fun more => ?_
    exact learns_pure fun pool hmore hcode => List.forall_mem_append.mpr ⟨hcode, hmore⟩

theorem learns_lowerBranches : (items : List Tree) →
    (∀ item ∈ items, item.Each (AsksFor groups ok)) → (at_ : Nat) →
      Learns (lowerBranches groups at_ items) fun pool codes =>
        ∀ code ∈ codes, AllStem ok True pool code
  | [], _, _ => learns_pure fun _ _ hcode => by cases hcode
  | [item], h, at_ => by
    refine learns_bind (learns_lower item (h item List.mem_cons_self) at_) fun code => ?_
    exact learns_pure fun pool hcode => by simpa using hcode
  | item :: next :: rest, h, at_ => by
    obtain ⟨hitem, hrest⟩ := List.forall_mem_cons.mp h
    refine learns_bind (learns_lower item hitem (at_ + 1)) fun code => ?_
    refine learns_bind (learns_lowerBranches (next :: rest) hrest _) fun codes => ?_
    exact learns_pure fun pool hcodes hcode => List.forall_mem_cons.mpr ⟨hcode, hcodes⟩

end

end Trees

/-! Automata. -/

section Blocks

variable {ok : Action → Prop} {s : State}

end Blocks

end Lowering

/-- To settle where blocks start changes nothing else. -/
theorem Draft.Stems.settle {ok : Action → Prop} {pool : ClassPool} {d : Draft} {i : Instr}
    {block? : Nat → Option Nat} (h : d.Stems ok pool) (hsettle : d.settle block? = .ok i) :
    i.Stems ok False pool := by
  cases d with
  | ready i =>
    cases hsettle
    exact h
  | jump state =>
    simp only [Draft.settle] at hsettle
    split at hsettle <;> cases hsettle
    trivial
  | look kind body next =>
    simp only [Draft.settle] at hsettle
    split at hsettle <;> cases hsettle
    exact h

namespace Program

variable {ok : Action → Prop} {p : Program}

/-- The instructions of the program of an expression do what the expressions in it ask for. -/
theorem ofTree_stems {tree : SyntaxTree} (h : tree.root.Each (Tree.AsksFor tree.groups ok))
    (hp : ofTree tree = .ok p) : ∀ i ∈ p.instrs, i.Stems ok True p.classes := by
  obtain ⟨code, l, hrun, rfl⟩ := ofTree_ok hp
  obtain ⟨_, hall⟩ := Lowering.learns_lower tree.root h 0 _ code l hrun
  intro i hi
  rcases List.mem_append.mp (List.mem_toArray.mp hi) with hi | hi
  · exact hall _ (fun _ _ h => h) i hi
  · obtain rfl := List.mem_singleton.mp hi
    trivial

/-- What the instructions refer to is known. -/
theorem knowsClasses_of_stems {counts : Prop}
    (h : ∀ i ∈ p.instrs, i.Stems ok counts p.classes) : p.KnowsClasses :=
  fun _ _ hi => h _ hi

/-! Programs without counters. -/

/-- The addresses behind a group stand in no repetition. Nothing is said of the others. -/
def nestBehind (chart : Nat → Stage) (at_ : Nat) : Option (List Nat) :=
  if chart at_ = .behind then some [] else none

theorem nestBehind_eq {chart : Nat → Stage} {at_ : Nat} {around : List Nat}
    (h : nestBehind chart at_ = some around) : chart at_ = .behind ∧ around = [] := by
  unfold nestBehind at h
  split at h
  · exact ⟨‹_›, (Option.some.inj h).symm⟩
  · cases h

theorem nestBehind_of_next {chart : Nat → Stage} {at_ : Nat} (h : Stage.behind.Next (chart at_)) :
    nestBehind chart at_ = some [] := if_pos h.eq_of_behind

/-- Where no rounds are counted, a way that is behind a group stays there, so a chart of any group
says all that there is to say of counters. -/
theorem Charted.nested {group : Nat} {chart : Nat → Stage} {pool : ClassPool}
    (h : p.Charted group chart) (hstems : ∀ i ∈ p.instrs, i.Stems ok False pool)
    (hbeyond : ∀ at_, p.length ≤ at_ → chart at_ = .ahead) : p.Nested (nestBehind chart) := by
  constructor
  · intro at_ around haround
    refine Nat.lt_of_not_le fun hout => ?_
    cases (nestBehind_eq haround).1.symm.trans (hbeyond at_ hout)
  · intro at_ i around hi haround
    obtain ⟨hbehind, rfl⟩ := nestBehind_eq haround
    have hstem := hstems i (Array.mem_of_getElem? hi)
    have hcharted := h at_ i hi
    cases i with
    | jump => exact nestBehind_of_next (hbehind ▸ hcharted)
    | split =>
      rw [Instr.Charted, hbehind] at hcharted
      exact ⟨nestBehind_of_next hcharted.1, nestBehind_of_next hcharted.2⟩
    | openGroup =>
      simp only [Instr.Charted, hbehind] at hcharted
      split at hcharted
      · cases hcharted.1
      · exact nestBehind_of_next hcharted.2
    | closeGroup =>
      simp only [Instr.Charted, hbehind] at hcharted
      split at hcharted
      · cases hcharted.1
      · exact nestBehind_of_next hcharted.2
    | look kind body next =>
      obtain ⟨z, hthrough, hnext⟩ := hcharted
      rw [hbehind] at hthrough
      generalize hbody : chart body = e at hthrough
      cases hthrough
      exact ⟨nestBehind_of_next (hbody ▸ .same _), nestBehind_of_next hnext⟩
    | repeatStart | repeatEnd => exact hstem.elim
    | accept | fail => trivial
    | _ => exact nestBehind_of_next (hbehind ▸ hcharted)

end Program

end RegexEngine
