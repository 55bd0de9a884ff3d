import RegexEngine.Automaton.OfTree
import RegexEngine.Proofs.Automaton.Sites
import RegexEngine.Proofs.CharClass.Strict
import RegexEngine.Proofs.Tree.Spans

/-!
What the marks on states mean, and what the steps of the construction build. Marks that are no
assertions never close a state. An assertion alone holds exactly where the anchor or the boundary
that it was made for does.

A step that fails builds nothing that is used, so only steps that succeed are described. `Builds`
says of a step that makes a fragment which relation the fragment realizes, under which flags, and
what becomes of the flags. It speaks of every site that the step may start from, and keeps what is
known of the site.
-/

namespace RegexEngine.Marks

theorem inter_union {marks other mask : Marks} (h : other.inter mask = .empty) :
    (marks.union other).inter mask = marks.inter mask := by
  have hbits : other.bits &&& mask.bits = 0 := congrArg Marks.bits h
  simp only [inter, union, Marks.mk.injEq]
  rw [← UInt32.toBitVec_inj] at hbits ⊢
  rw [UInt32.toBitVec_and] at hbits
  rw [UInt32.toBitVec_and, UInt32.toBitVec_and, UInt32.toBitVec_or, BitVec.and_or_distrib_right,
    hbits]
  exact BitVec.or_zero

theorem contains_eq_inter (a b : Marks) : a.contains b = ((a.inter b).bits == b.bits) := rfl

theorem inter_named {other : Marks} (h : other.inter assertions = .empty) :
    ∀ p ∈ named, other.inter p.2 = .empty := by
  intro p hp
  have hmask : ∀ p ∈ named, p.2 = assertions.inter p.2 := by decide
  have hassoc : other.inter (assertions.inter p.2) = (other.inter assertions).inter p.2 :=
    congrArg Marks.mk (UInt32.and_assoc ..).symm
  rw [hmask p hp, hassoc, h]
  exact congrArg Marks.mk UInt32.zero_and

/-- Marks that are no assertions do not count. -/
theorem holdAt_union {marks other : Marks} (h : other.inter assertions = .empty)
    (input : Array Char) (i : Nat) :
    (marks.union other).holdAt input i = marks.holdAt input i := by
  have hassertion : (marks.union other).hasAssertion = marks.hasAssertion := by
    rw [hasAssertion, hasAssertion, inter_union h]
  rw [holdAt, holdAt, hassertion]
  congr 1
  rw [Bool.eq_iff_iff, List.all_eq_true, List.all_eq_true]
  refine forall₂_congr fun p hp => ?_
  have hmark := inter_named h p hp
  dsimp only
  rw [contains_eq_inter, contains_eq_inter, inter_union hmark]

/-- No assertion is among others. -/
theorem contains_named : ∀ p ∈ named, ∀ q ∈ named, p.2.contains q.2 = decide (p.2 = q.2) := by
  decide

theorem hasAssertion_named : ∀ p ∈ named, p.2.hasAssertion = true := by
  decide

/-- An assertion alone holds where it says. -/
theorem holdAt_named {p : String × Marks} (hp : p ∈ named) (input : Array Char) (i : Nat) :
    p.2.holdAt input i = assertionHolds input i p.2 := by
  rw [holdAt, hasAssertion_named p hp, Bool.not_true, Bool.false_or, Bool.eq_iff_iff,
    List.all_eq_true]
  constructor
  · intro hall
    have hself := hall p hp
    simpa [contains_named p hp p hp] using hself
  · intro hholds q hq
    dsimp only
    rw [contains_named p hp q hq]
    by_cases heq : p.2 = q.2
    · simp [← heq, hholds]
    · simp [heq]

end RegexEngine.Marks

namespace RegexEngine

/-- Anchors speak of places in the input. -/
theorem Anchor.HoldsAt.le_size {input : Array Char} {i : Nat} {multiline : Bool} {a : Anchor}
    (h : a.HoldsAt input i multiline) : i ≤ input.size := by
  have hbefore (h : input[i - 1]? = some '\n') : i ≤ input.size := by
    have hlt := (Array.getElem?_eq_some_iff.mp h).1
    omega
  have hafter (h : input[i]? = some '\n') : i ≤ input.size :=
    Nat.le_of_lt (Array.getElem?_eq_some_iff.mp h).1
  cases a <;> cases multiline <;> simp only [HoldsAt, Bool.false_eq_true, if_true, if_false] at h
    <;> grind

/-- The assertion of an anchor holds where the anchor does. -/
theorem holdAt_anchorMarks {input : Array Char} {i : Nat} (hi : i ≤ input.size) (flags : Flags)
    (a : Anchor) : (Blueprint.anchorMarks flags a).holdAt input i = true ↔
      a.HoldsAt input i (flags.contains .multiline) := by
  have hstart : Marks.inputStart.holdAt input i = decide (i = 0) :=
    Marks.holdAt_named (p := ("ANCHOR_START", .inputStart)) (by decide) input i
  have hend : Marks.inputEnd.holdAt input i = decide (i = input.size) :=
    Marks.holdAt_named (p := ("ANCHOR_END", .inputEnd)) (by decide) input i
  have hnewline : Marks.inputEndOrNewline.holdAt input i =
      (i = input.size || (i + 1 = input.size && input[i]? == some '\n')) :=
    Marks.holdAt_named (p := ("ANCHOR_END_NEWLINE", .inputEndOrNewline)) (by decide) input i
  have hlineStart : Marks.lineStart.holdAt input i =
      (if i = 0 then none else input[i - 1]?).all (· == '\n') :=
    Marks.holdAt_named (p := ("LINE_START", .lineStart)) (by decide) input i
  have hlineEnd : Marks.lineEnd.holdAt input i = input[i]?.all (· == '\n') :=
    Marks.holdAt_named (p := ("LINE_END", .lineEnd)) (by decide) input i
  cases a with
  | caret =>
    rw [Blueprint.anchorMarks, Anchor.HoldsAt]
    cases flags.contains .multiline with
    | false => simp [hstart]
    | true =>
      rw [if_pos rfl, if_pos rfl, hlineStart]
      by_cases hzero : i = 0
      · simp [hzero]
      · have hlt : i - 1 < input.size := by omega
        simp [hzero, Array.getElem?_eq_getElem hlt]
  | dollar =>
    rw [Blueprint.anchorMarks, Anchor.HoldsAt]
    cases flags.contains .multiline with
    | false => simp [hnewline]
    | true =>
      rw [if_pos rfl, if_pos rfl, hlineEnd]
      by_cases hlast : i = input.size
      · simp [hlast]
      · have hlt : i < input.size := by omega
        simp [hlast, Array.getElem?_eq_getElem hlt]
  | inputStart =>
    rw [Blueprint.anchorMarks, hstart, decide_eq_true_iff]
    rfl
  | inputEnd =>
    rw [Blueprint.anchorMarks, hend, decide_eq_true_iff]
    rfl
  | inputEndOrNewline =>
    rw [Blueprint.anchorMarks, hnewline]
    simp [Anchor.HoldsAt]

/-- The assertions of boundaries hold where words begin or end, and everywhere else. -/
theorem holdAt_boundaryMarks (input : Array Char) (i : Nat) (negated : Bool) :
    (if negated then Marks.notWordBoundary else .wordBoundary).holdAt input i = true ↔
      ((WordBefore input i ↔ WordAfter input i) ↔ negated = true) := by
  have hbefore : ((if i = 0 then none else input[i - 1]?).any Marks.isWordChar = true) ↔
      WordBefore input i := by
    by_cases hzero : i = 0
    · simp [hzero, WordBefore]
    · simp [hzero, WordBefore, Option.any_eq_true, Nat.pos_of_ne_zero hzero]
  have hafter : input[i]?.any Marks.isWordChar = true ↔ WordAfter input i := by
    simp [WordAfter, Option.any_eq_true]
  have hboundary : Marks.wordBoundary.holdAt input i =
      ((if i = 0 then none else input[i - 1]?).any Marks.isWordChar !=
        input[i]?.any Marks.isWordChar) :=
    Marks.holdAt_named (p := ("WORD_BOUNDARY", .wordBoundary)) (by decide) input i
  have hnone : Marks.notWordBoundary.holdAt input i =
      !((if i = 0 then none else input[i - 1]?).any Marks.isWordChar !=
        input[i]?.any Marks.isWordChar) :=
    Marks.holdAt_named (p := ("NOT_WORD_BOUNDARY", .notWordBoundary)) (by decide) input i
  rw [← hbefore, ← hafter, ← Bool.eq_iff_iff]
  cases negated with
  | false => simp [hboundary]
  | true => simp [hnone]

end RegexEngine

/-! Steps of the construction. -/

namespace RegexEngine.Blueprint

open Automaton

/-- What a step of the construction answers, and what it leaves behind, if it succeeds. -/
def Yields {α : Type} (x : Step α) (p : Blueprint) (post : α → Blueprint → Prop) : Prop :=
  ∀ (v : α) (p' : Blueprint), x.run p = (.ok v, p') → post v p'

theorem yields_pure {α : Type} {v : α} {p : Blueprint} {post : α → Blueprint → Prop}
    (h : post v p) : Yields (pure v) p post := by
  intro v' p' hrun
  cases hrun
  exact h

theorem yields_bind {α β : Type} {x : Step α} {f : α → Step β} {p : Blueprint}
    {mid : α → Blueprint → Prop} {post : β → Blueprint → Prop} (hx : Yields x p mid)
    (hf : ∀ v p', mid v p' → Yields (f v) p' post) : Yields (x >>= f) p post := by
  intro w p₂ hrun
  change ExceptT.bindCont f (x.run p).1 (x.run p).2 = _ at hrun
  cases hv : (x.run p).1 with
  | error e =>
    rw [hv] at hrun
    cases hrun
  | ok v =>
    rw [hv] at hrun
    exact hf v _ (hx v _ (Prod.ext hv rfl)) w p₂ hrun

/-- A step whose answer does not matter. -/
theorem yields_bind_any {α β : Type} {x : Step α} {f : α → Step β} {p : Blueprint}
    {post : β → Blueprint → Prop} (hf : ∀ v p', Yields (f v) p' post) : Yields (x >>= f) p post := by
  have hany : Yields x p fun _ _ => True := fun _ _ _ => trivial
  exact yields_bind hany fun v p' _ => hf v p'

theorem yields_map {α β : Type} {x : Step α} {f : α → β} {p : Blueprint}
    {mid : α → Blueprint → Prop} {post : β → Blueprint → Prop} (hx : Yields x p mid)
    (hf : ∀ v p', mid v p' → post (f v) p') : Yields (f <$> x) p post := by
  have hmap : f <$> x = x >>= fun v => pure (f v) := (bind_pure_comp f x).symm
  rw [hmap]
  exact yields_bind hx fun v p' h => yields_pure (hf v p' h)

theorem yields_modify {f : Blueprint → Blueprint} {p : Blueprint}
    {post : Unit → Blueprint → Prop} (h : post () (f p)) : Yields (modify f) p post := by
  intro v p' hrun
  cases hrun
  exact h

theorem yields_flags? (p : Blueprint) : Yields flags? p fun flags p' => flags = p.flags ∧ p' = p := by
  intro v p' hrun
  cases hrun
  exact ⟨rfl, rfl⟩

/-! Steps on a site. -/

section Steps

variable {p : Blueprint} {before after loose : List (Nat × List Transition)}
  {exits : List Transition} {s : Nat} {Known : Automaton → Prop}

/-- A state that can be passed everywhere. -/
def IsPlain (a : Automaton) (s : Nat) : Prop :=
  ∀ (input : Array Char) (i : Nat), a.isOpenAt input i s = true

/-- What is left of the construction after a state was added. -/
def added (p : Blueprint) (state : State) : Blueprint :=
  { p with automaton := p.automaton.withState state, nextId := p.nextId + 1 }

theorem yields_added (p : Blueprint) :
    Yields newState p fun s p' =>
      s = p.automaton.states.size ∧ p' = p.added (.new p.nextId false) := by
  intro s p' hrun
  by_cases hfull : p.maxStates ≤ p.automaton.stateCount
  · have herror : newState.run p = (.error (LimitFault.states p.maxStates).error, p) := by
      change (if _ then _ else _ : Step Nat).run p = _
      rw [if_pos hfull]
      rfl
    rw [herror] at hrun
    cases hrun
  · have hok : newState.run p = (.ok p.automaton.states.size, p.added (.new p.nextId false)) := by
      change (if _ then _ else _ : Step Nat).run p = _
      rw [if_neg hfull]
      rfl
    rw [hok] at hrun
    cases hrun
    exact ⟨rfl, rfl⟩

/-- A state that does what a new one does can be passed everywhere. -/
theorem isPlain_of_new {a : Automaton} {id : UInt32}
    (h : ∃ state, a.states[s]? = some state ∧ state.PassesAs (.new id false)) : IsPlain a s := by
  intro input i
  obtain ⟨state, hstate, hpasses⟩ := h
  have hmarks : Marks.empty.hasAssertion = false := by decide
  simp [isOpenAt_eq hstate hpasses, State.new, Marks.holdAt, hmarks]

theorem yields_newState (h : Site p.automaton loose Known) :
    Yields newState p fun s p' => p'.flags = p.flags ∧
      Site p'.automaton ((s, []) :: loose) fun a => Known a ∧ IsPlain a s := by
  intro s p' hrun
  obtain ⟨rfl, rfl⟩ := yields_added p s p' hrun
  exact ⟨rfl, (h.push rfl rfl).mono fun a ha => ⟨ha.1, isPlain_of_new ha.2⟩⟩

theorem modifyState_withState (a : Automaton) (state : State) (f : State → State) :
    (a.withState state).modifyState a.states.size f = a.withState (f state) := by
  simp only [withState, modifyState, Automaton.mk.injEq, true_and, and_true]
  refine Array.ext (by simp) fun k hk _ => ?_
  by_cases hlast : k = a.states.size
  · subst hlast
    simp [Array.getElem_modify]
  · have hk' : k < a.states.size := by
      simp at hk
      omega
    simp [Array.getElem_modify, Array.getElem_push, hk', Ne.symm hlast]

theorem yields_markedState (h : Site p.automaton loose Known) (marks : Marks) :
    Yields (markedState marks) p fun s p' => p'.flags = p.flags ∧
      Site p'.automaton ((s, []) :: loose) fun a =>
        Known a ∧ ∀ (input : Array Char) (i : Nat), a.isOpenAt input i s = marks.holdAt input i := by
  refine yields_bind (yields_added p) fun s p₁ hadded => ?_
  obtain ⟨rfl, rfl⟩ := hadded
  intro s p₂ hrun
  have hmarked : p₂ = p.added { State.new p.nextId false with marks := marks } := by
    cases hrun
    simp only [added, modifyState_withState]
  cases hrun
  rw [hmarked]
  refine ⟨rfl, (h.push rfl rfl).mono fun a ha => ⟨ha.1, fun input i => ?_⟩⟩
  obtain ⟨state, hstate, hpasses⟩ := ha.2
  simp [isOpenAt_eq hstate hpasses, State.new]

theorem yields_join (before : List (Nat × List Transition))
    (h : Site p.automaton (before ++ (s, exits) :: after) Known) (target : Nat) :
    Yields (join s target) p fun _ p' => p'.flags = p.flags ∧
      Site p'.automaton (before ++ (s, exits ++ [passing s target]) :: after) Known :=
  yields_modify ⟨rfl, h.connect before target none⟩

/-- The state that is chosen from leads in and out, in one order or the other. -/
theorem yields_choice (before : List (Nat × List Transition))
    (h : Site p.automaton (before ++ (s, []) :: after) Known) (inside outside : Nat)
    (greedy : Bool) :
    Yields (choice s inside outside greedy) p fun _ p' => p'.flags = p.flags ∧
      ∃ targets : List Nat, (∀ t, t ∈ targets ↔ t ∈ [inside, outside]) ∧
        Site p'.automaton (before ++ (s, targets.map (passing s)) :: after) Known := by
  cases greedy with
  | true =>
    refine yields_bind (yields_join before h inside) fun _ p₁ ⟨hflags, h⟩ => ?_
    refine fun _ p₂ hrun => ?_
    obtain ⟨hflags', h⟩ := yields_join before h outside _ p₂ hrun
    exact ⟨hflags'.trans hflags, [inside, outside], fun _ => Iff.rfl, h⟩
  | false =>
    refine yields_bind (yields_join before h outside) fun _ p₁ ⟨hflags, h⟩ => ?_
    refine fun _ p₂ hrun => ?_
    obtain ⟨hflags', h⟩ := yields_join before h inside _ p₂ hrun
    exact ⟨hflags'.trans hflags, [outside, inside], fun t => by simp [or_comm], h⟩

/-- Marks that are no assertions do not close a state. -/
theorem yields_change (before : List (Nat × List Transition))
    (h : Site p.automaton (before ++ (s, exits) :: after) Known) {f : State → State}
    (hf : ∀ state, (f state).PassesAs state ∧ (f state).accepting = state.accepting ∧
      (f state).transitions = state.transitions) :
    Yields (change s f) p fun _ p' => p'.flags = p.flags ∧
      Site p'.automaton (before ++ (s, exits) :: after) Known := by
  have hlevel := h.level (s, exits) (by simp)
  refine yields_modify ⟨rfl, h.modify hlevel fun state hstate => ?_⟩
  obtain ⟨hpasses, haccepting, htransitions⟩ := hf state
  exact ⟨hpasses, haccepting, htransitions.trans hstate⟩

end Steps

/-! Fragments. -/

/-- A step builds a fragment that realizes a relation, which depends on the flags in effect. The
exit of the fragment is left as a loose end. -/
def Builds (input : Array Char) (build : Step Fragment) (L : Flags → Nat → Nat → Prop)
    (next : Flags → Flags) : Prop :=
  ∀ (p : Blueprint) (loose : List (Nat × List Transition)) (Known : Automaton → Prop),
    Site p.automaton loose Known → Yields build p fun f p' => p'.flags = next p.flags ∧
      Site p'.automaton ((f.stop, []) :: loose) fun a => Known a ∧ a.Realizes input f (L p.flags)

variable {input : Array Char} {build : Step Fragment} {L : Flags → Nat → Nat → Prop}
  {next : Flags → Flags}

theorem IsPlain.realizes {a : Automaton} {s : Nat} (h : IsPlain a s) (input : Array Char) :
    a.Realizes input ⟨s, s⟩ (· = ·) := by
  have hsingle : a.Realizes input ⟨s, s⟩ fun i j => i = j ∧ True :=
    .single (fun _ _ _ => trivial) fun i _ => h input i
  exact hsingle.congr fun i j => and_iff_left trivial

theorem builds_skip (input : Array Char) : Builds input skip (fun _ i j => i = j) id := by
  intro p loose Known hsite
  refine yields_map (yields_newState hsite) fun s p' ⟨hflags, hsite⟩ => ⟨hflags, ?_⟩
  exact hsite.mono fun a ⟨hknown, hplain⟩ => ⟨hknown, hplain.realizes input⟩

/-- The fragment of a label takes one character that its matcher takes. -/
theorem builds_consuming {label : List Char} {m : Matcher} (h : Matcher.parse label = .ok m) :
    Builds input (consuming label)
      (fun _ => TakesOne input fun c => m.matchesChar c = true) id := by
  intro p loose Known hsite
  refine yields_bind (yields_newState hsite) fun start p₁ ⟨hflags₁, hsite₁⟩ => ?_
  refine yields_bind (yields_newState hsite₁) fun stop p₂ ⟨hflags₂, hsite₂⟩ => ?_
  rw [Label.ofChars_eq h]
  intro f p' hrun
  cases hrun
  have hjoined := Site.connect [(stop, [])] hsite₂ stop (some ⟨label, m, h⟩)
  refine ⟨hflags₂.trans hflags₁, (Site.finish [(stop, [])] hjoined).mono fun a ha => ?_⟩
  obtain ⟨⟨⟨hknown, hstart⟩, hstop⟩, hexits⟩ := ha
  exact ⟨hknown, .take (hstart input) hexits, fun _ j _ => hstop input j⟩

/-- The fragment of an assertion matches the empty text where the assertion holds. -/
theorem builds_marked {marks : Marks} {P : Nat → Prop}
    (hsound : ∀ i, i ≤ input.size → marks.holdAt input i = true → P i)
    (hcomplete : ∀ i, P i → marks.holdAt input i = true) :
    Builds input (single <$> markedState marks) (fun _ i j => i = j ∧ P i) id := by
  intro p loose Known hsite
  refine yields_map (yields_markedState hsite marks) fun s p' ⟨hflags, hsite⟩ => ⟨hflags, ?_⟩
  refine hsite.mono fun a ⟨hknown, hopen⟩ => ⟨hknown, .single (fun i hi h => ?_) fun i h => ?_⟩
  · exact hsound i hi (hopen input i ▸ h)
  · exact (hopen input i).trans (hcomplete i h)

/-- What depends on the flags in effect can be looked at for each of them. -/
theorem builds_flags? {build : Flags → Step Fragment}
    (h : ∀ flags, Builds input (build flags) (fun _ => L flags) id) :
    Builds input (flags? >>= build) L id := by
  intro p loose Known hsite
  refine yields_bind (yields_flags? p) fun flags p' hp => ?_
  obtain ⟨rfl, rfl⟩ := hp
  exact h _ _ loose Known hsite

theorem builds_keepingFlags (h : Builds input build L next) :
    Builds input (keepingFlags build) L id := by
  intro p loose Known hsite
  refine yields_bind (yields_flags? p) fun flags p' hp => ?_
  obtain ⟨rfl, rfl⟩ := hp
  refine yields_bind (h _ loose Known hsite) fun f p₁ ⟨_, hsite₁⟩ => ?_
  intro f' p₂ hrun
  cases hrun
  exact ⟨rfl, hsite₁⟩

theorem openGroup_passesAs (index : Nat) (name : Option String) (s : State) :
    State.PassesAs { s.openGroup index with groupName := name } s :=
  ⟨rfl, Marks.holdAt_union (by decide)⟩

theorem closeGroup_passesAs (index : Nat) (name : Option String) (s : State) :
    State.PassesAs { s.closeGroup index with groupName := name } s :=
  ⟨rfl, Marks.holdAt_union (by decide)⟩

/-- A capturing group matches what the expression in it matches. -/
theorem builds_captured (h : Builds input build L next) (index : Nat) (name : Option String) :
    Builds input (captured index name build) L next := by
  intro p loose Known hsite
  refine yields_bind (yields_newState hsite) fun start p₁ ⟨hflags₁, hsite₁⟩ => ?_
  refine yields_bind (h p₁ _ _ hsite₁) fun inner p₂ ⟨hflags₂, hsite₂⟩ => ?_
  refine yields_bind (yields_newState hsite₂) fun stop p₃ ⟨hflags₃, hsite₃⟩ => ?_
  refine yields_bind (yields_change [(stop, []), (inner.stop, [])] hsite₃
    fun s => ⟨openGroup_passesAs index name s, rfl, rfl⟩) fun _ p₄ ⟨hflags₄, hsite₄⟩ => ?_
  refine yields_bind (yields_change [] hsite₄
    fun s => ⟨closeGroup_passesAs index name s, rfl, rfl⟩) fun _ p₅ ⟨hflags₅, hsite₅⟩ => ?_
  refine yields_bind (yields_join [(stop, []), (inner.stop, [])] hsite₅ inner.start)
    fun _ p₆ ⟨hflags₆, hsite₆⟩ => ?_
  refine yields_bind (yields_join [(stop, [])] hsite₆ stop) fun _ p₇ ⟨hflags₇, hsite₇⟩ => ?_
  refine yields_pure ⟨?_, ((hsite₇.finish [(stop, [])]).finish [(stop, [])]).mono fun a ha => ?_⟩
  · rw [hflags₇, hflags₆, hflags₅, hflags₄, hflags₃, hflags₂, hflags₁]
  · obtain ⟨⟨⟨⟨⟨hknown, hstart⟩, hinner⟩, hstop⟩, hleave⟩, henter⟩ := ha
    rw [hflags₁] at hinner
    have hall := ((hstart.realizes input).join henter hinner).join hleave (hstop.realizes input)
    exact ⟨hknown, hall.congr fun i j => by simp⟩

end RegexEngine.Blueprint
