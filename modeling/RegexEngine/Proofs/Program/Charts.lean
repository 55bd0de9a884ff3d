import RegexEngine.Program.OfTree
import RegexEngine.Proofs.Steps
import RegexEngine.Proofs.Tree.Visits

/-!
Charts of programs. The items of a stretch of code stand one after the other from an address on. A
chart gives each address a stage, such as that of a capture group, and says which stages may come
next. A stretch is entered at a stage if there are stages for its addresses so that its items fit
every chart that has them, as long as what stands behind the stretch is as it has to be. Nothing is
asked of the rest of the chart, so stretches can be put together.

The chart of a group says at which of its stages each address is entered. It fits a program if every
instruction leads to stages that come next, and if lookarounds are passed as they may be. The
instructions of an expression are a stretch that is entered at the first stage that the expression
fits. What stands behind them is entered at the second.
-/

namespace RegexEngine

section Places

variable {α : Type} {holds : Nat → α → Prop} {at_ : Nat} {items more : List α}

/-- Something holds of the items of a list at their places, which count from one on. -/
def AllFrom (holds : Nat → α → Prop) : Nat → List α → Prop
  | _, [] => True
  | at_, item :: rest => holds at_ item ∧ AllFrom holds (at_ + 1) rest

theorem allFrom_append :
    AllFrom holds at_ (items ++ more) ↔
      AllFrom holds at_ items ∧ AllFrom holds (at_ + items.length) more := by
  induction items generalizing at_ with
  | nil => simp [AllFrom]
  | cons item rest ih =>
    have hplace : at_ + 1 + rest.length = at_ + (rest.length + 1) := by omega
    simp [AllFrom, ih, hplace, and_assoc]

theorem allFrom_iff :
    AllFrom holds at_ items ↔ ∀ k item, items[k]? = some item → holds (at_ + k) item := by
  induction items generalizing at_ with
  | nil => simp [AllFrom]
  | cons first rest ih =>
    rw [AllFrom, ih]
    constructor
    · rintro ⟨hfirst, hrest⟩ (_ | k) item hitem
      · cases hitem
        exact hfirst
      · rw [Nat.add_comm k 1, ← Nat.add_assoc]
        exact hrest k item hitem
    · intro h
      refine ⟨h 0 first rfl, fun k item hitem => ?_⟩
      rw [Nat.add_assoc, Nat.add_comm 1 k]
      exact h (k + 1) item hitem

theorem AllFrom.map {β : Type} {holds' : Nat → β → Prop} {f : α → β} (h : AllFrom holds at_ items)
    (himp : ∀ k item, holds k item → holds' k (f item)) : AllFrom holds' at_ (items.map f) := by
  induction items generalizing at_ with
  | nil => trivial
  | cons item rest ih => exact ⟨himp at_ item h.1, ih h.2⟩

end Places

section

variable {σ ι : Type}

/-- A chart has the stages of some addresses. -/
abbrev HasStages (chart : Nat → σ) (at_ : Nat) (stages : List σ) : Prop :=
  AllFrom (fun k z => chart k = z) at_ stages

/-- There is a chart that has the stages of the first addresses. -/
theorem hasStages_getD (stages : List σ) (z : σ) :
    HasStages (fun k => stages[k]?.getD z) 0 stages := by
  rw [HasStages, allFrom_iff]
  intro k y hy
  rw [Nat.zero_add, hy]
  rfl

/-- Items from an address on are entered at a stage. Where they fit a chart depends on what stands
behind them. -/
def Stretch (next : σ → σ → Prop) (fits : (Nat → σ) → Nat → ι → Prop) (at_ : Nat)
    (code : List ι) (y : σ) (ends : σ → Prop) : Prop :=
  ∃ stages : List σ, stages.length = code.length ∧ ∀ chart : Nat → σ,
    HasStages chart at_ stages → ends (chart (at_ + code.length)) →
      next y (chart at_) ∧ AllFrom (fits chart) at_ code

variable {next : σ → σ → Prop} {fits : (Nat → σ) → Nat → ι → Prop} {at_ : Nat}
  {code more : List ι} {x y z : σ} {ends ends' : σ → Prop}

theorem stretch_nil (h : ∀ z, ends z → next y z) : Stretch next fits at_ [] y ends :=
  ⟨[], rfl, fun chart _ hends => ⟨h (chart at_) hends, trivial⟩⟩

theorem stretch_single [Std.Refl next] {i : ι} (h : ∀ chart : Nat → σ, chart at_ = y →
    ends (chart (at_ + 1)) → fits chart at_ i) : Stretch next fits at_ [i] y ends := by
  refine ⟨[y], rfl, fun chart hstages hends => ?_⟩
  obtain ⟨hfirst, _⟩ := hstages
  exact ⟨hfirst ▸ Std.Refl.refl _, h chart hfirst hends, trivial⟩

theorem Stretch.leave (h : Stretch next fits at_ code y ends) (himp : ∀ z, ends' z → ends z) :
    Stretch next fits at_ code y ends' := by
  obtain ⟨stages, hlength, hfits⟩ := h
  exact ⟨stages, hlength, fun chart hstages hends => hfits chart hstages (himp _ hends)⟩

theorem Stretch.map {κ : Type} {fits' : (Nat → σ) → Nat → κ → Prop} {f : ι → κ}
    (h : Stretch next fits at_ code y ends)
    (himp : ∀ chart k i, fits chart k i → fits' chart k (f i)) :
    Stretch next fits' at_ (code.map f) y ends := by
  obtain ⟨stages, hlength, hfits⟩ := h
  refine ⟨stages, by simp [hlength], fun chart hstages hends => ?_⟩
  rw [List.length_map] at hends
  obtain ⟨henter, hcode⟩ := hfits chart hstages hends
  exact ⟨henter, hcode.map (himp chart)⟩

theorem Stretch.append (h : Stretch next fits at_ code y (next x))
    (h' : Stretch next fits (at_ + code.length) more x ends) :
    Stretch next fits at_ (code ++ more) y ends := by
  obtain ⟨stages, hlength, hfits⟩ := h
  obtain ⟨stages', hlength', hfits'⟩ := h'
  refine ⟨stages ++ stages', by simp [hlength, hlength'], fun chart hstages hends => ?_⟩
  obtain ⟨hstages, hstages'⟩ := allFrom_append.mp hstages
  rw [List.length_append, ← Nat.add_assoc] at hends
  obtain ⟨hmiddle, hmore⟩ := hfits' chart (hlength ▸ hstages') hends
  obtain ⟨henter, hcode⟩ := hfits chart hstages hmiddle
  exact ⟨henter, allFrom_append.mpr ⟨hcode, hmore⟩⟩

/-- Items between two others, which may lead to each other, inside, and behind. -/
theorem Stretch.between [Std.Refl next] (h : Stretch next fits (at_ + 1) code x (next z))
    {first last : ι}
    (hfirst : ∀ chart : Nat → σ, chart at_ = y → next x (chart (at_ + 1)) →
      chart (at_ + code.length + 1) = z → ends (chart (at_ + code.length + 2)) →
        fits chart at_ first)
    (hlast : ∀ chart : Nat → σ, chart at_ = y → chart (at_ + code.length + 1) = z →
      ends (chart (at_ + code.length + 2)) → fits chart (at_ + code.length + 1) last) :
    Stretch next fits at_ (first :: code ++ [last]) y ends := by
  obtain ⟨stages, hlength, hfits⟩ := h
  refine ⟨y :: stages ++ [z], by simp [hlength], fun chart hstages hends => ?_⟩
  have hplace : at_ + 1 + code.length = at_ + code.length + 1 := by omega
  have hend : at_ + (first :: code ++ [last]).length = at_ + code.length + 2 := by simp; omega
  rw [hend] at hends
  obtain ⟨hstart, hstages, hstop, _⟩ : chart at_ = y ∧ HasStages chart (at_ + 1) stages ∧
      HasStages chart (at_ + code.length + 1) [z] := by
    rw [List.cons_append] at hstages
    obtain ⟨hstart, hrest⟩ := hstages
    rw [allFrom_append, hlength, hplace] at hrest
    exact ⟨hstart, hrest⟩
  obtain ⟨henter, hcode⟩ := hfits chart hstages (by rw [hplace, hstop]; exact Std.Refl.refl _)
  refine ⟨hstart ▸ Std.Refl.refl _, hfirst chart hstart henter hstop hends, ?_⟩
  exact allFrom_append.mpr ⟨hcode, hplace ▸ hlast chart hstart hstop hends, trivial⟩

/-- Items behind another one, which may lead to them or behind them. -/
theorem Stretch.cons [Std.Refl next] (h : Stretch next fits (at_ + 1) code x ends) {first : ι}
    (hfirst : ∀ chart : Nat → σ, chart at_ = y → next x (chart (at_ + 1)) →
      ends (chart (at_ + code.length + 1)) → fits chart at_ first) :
    Stretch next fits at_ (first :: code) y ends := by
  obtain ⟨stages, hlength, hfits⟩ := h
  refine ⟨y :: stages, by simp [hlength], fun chart hstages hends => ?_⟩
  have hplace : at_ + 1 + code.length = at_ + code.length + 1 := by omega
  obtain ⟨hstart, hstages⟩ := hstages
  obtain ⟨henter, hcode⟩ := hfits chart hstages (hplace ▸ hends)
  exact ⟨hstart ▸ Std.Refl.refl _, hfirst chart hstart henter hends, hcode⟩

/-- Items before another one, which may lead back to them. -/
theorem Stretch.concat [Std.Refl next] (h : Stretch next fits at_ code y (next x)) {last : ι}
    (hlast : ∀ chart : Nat → σ, next y (chart at_) → chart (at_ + code.length) = x →
      ends (chart (at_ + code.length + 1)) → fits chart (at_ + code.length) last) :
    Stretch next fits at_ (code ++ [last]) y ends := by
  obtain ⟨stages, hlength, hfits⟩ := h
  refine ⟨stages ++ [x], by simp [hlength], fun chart hstages hends => ?_⟩
  rw [List.length_append, List.length_singleton, ← Nat.add_assoc] at hends
  obtain ⟨hstages, hstop, _⟩ := allFrom_append.mp hstages
  rw [hlength] at hstop
  obtain ⟨henter, hcode⟩ := hfits chart hstages (by rw [hstop]; exact Std.Refl.refl _)
  exact ⟨henter, allFrom_append.mpr ⟨hcode, hlast chart henter hstop hends, trivial⟩⟩

end

/-! Instructions. -/

instance : Std.Refl Stage.Next := ⟨.same⟩

/-- An instruction that stands at an address fits a chart. -/
def Instr.Charted (group : Nat) (chart : Nat → Stage) (at_ : Nat) : Instr → Prop
  | openGroup other =>
    if other = group then chart at_ = .outside ∧ (chart (at_ + 1)).IsLevel
    else 0 < other ∧ (chart at_).Next (chart (at_ + 1))
  | closeGroup other =>
    if other = group then chart at_ = .within ∧ Stage.within.Next (chart (at_ + 1))
    else 0 < other ∧ (chart at_).Next (chart (at_ + 1))
  | look _ body next =>
    ∃ z, Stage.Through false (chart at_) (chart body) z ∧ z.Next (chart next)
  | jump target => (chart at_).Next (chart target)
  | split first second => (chart at_).Next (chart first) ∧ (chart at_).Next (chart second)
  | repeatStart _ _ _ stop =>
    (chart at_).Next (chart (at_ + 1)) ∧ (chart at_).Next (chart (stop + 1))
  | repeatEnd start => (chart at_).Next (chart start)
  | accept | fail => True
  | _ => (chart at_).Next (chart (at_ + 1))

namespace Program

/-- A chart fits all instructions of a program. -/
def Charted (group : Nat) (chart : Nat → Stage) (p : Program) : Prop :=
  ∀ (at_ : Nat) (i : Instr), p.instrs[at_]? = some i → i.Charted group chart at_

variable {group : Nat} {chart : Nat → Stage} {p : Program}

theorem Charted.leads (h : p.Charted group chart) (hgroup : 0 < group) {input : Array Char}
    {path next : Path} {i : Instr} (hi : p.instrs[path.place]? = some i)
    (hleads : p.Leads input path i next) : path.Progresses group chart next := by
  have hcharted := h path.place i hi
  obtain ⟨hplace, hle, _, hslots⟩ := hleads
  have hover (hsame : i.capture path.position path.slots = path.slots)
      (hnext : (chart path.place).Next (chart next.place)) : path.Progresses group chart next :=
    .of_sameAt hle hnext ((hslots.trans hsame) ▸ .refl group path.slots)
  cases i with
  | openGroup other =>
    have hplace : next.place = path.place + 1 := List.mem_singleton.mp hplace
    simp only [Instr.Charted, ← hplace] at hcharted
    split at hcharted
    · rename_i heq
      exact .of_openAt hle hcharted.1 hcharted.2 (heq ▸ hslots)
    · rename_i hne
      exact .of_sameAt hle hcharted.2 (hslots ▸ Slots.sameAt_openAt hgroup hcharted.1 hne)
  | closeGroup other =>
    have hplace : next.place = path.place + 1 := List.mem_singleton.mp hplace
    simp only [Instr.Charted, ← hplace] at hcharted
    split at hcharted
    · rename_i heq
      exact .of_closeAt hle hcharted.1 hcharted.2 (heq ▸ hslots)
    · rename_i hne
      exact .of_sameAt hle hcharted.2 (hslots ▸ Slots.sameAt_closeAt hgroup hcharted.1 hne)
  | split first second =>
    simp only [leadsTo, List.mem_cons, List.not_mem_nil, or_false] at hplace
    rcases hplace with hplace | hplace
    · exact hover rfl (hplace ▸ hcharted.1)
    · exact hover rfl (hplace ▸ hcharted.2)
  | repeatStart min max greedy stop =>
    simp only [leadsTo, List.mem_cons, List.not_mem_nil, or_false] at hplace
    rcases hplace with hplace | hplace
    · exact hover rfl (hplace ▸ hcharted.1)
    · exact hover rfl (hplace ▸ hcharted.2)
  | repeatEnd start =>
    -- The way goes on where the start of the repetition leads.
    simp only [leadsTo] at hplace
    split at hplace
    · rename_i hstart
      have hround := h start _ hstart
      simp only [List.mem_cons, List.not_mem_nil, or_false] at hplace
      rcases hplace with hplace | hplace
      · exact hover rfl (hplace ▸ hcharted.trans hround.1)
      · exact hover rfl (hplace ▸ hcharted.trans hround.2)
    · cases hplace
  | look kind body after => cases hplace
  | accept => cases hplace
  | fail => cases hplace
  | _ => exact hover rfl ((List.mem_singleton.mp hplace) ▸ hcharted)

/-- Ways through a program progress as a chart says that fits it. -/
theorem Charted.respects (h : p.Charted group chart) (hgroup : 0 < group) (input : Array Char) :
    p.code.Respects input (Path.Progresses group chart) := by
  apply respects_of_instrs p (Path.chains_progresses group chart)
  · exact fun path i hi next hleads => h.leads hgroup hi hleads
  · intro path kind body after hi tried found htried hfound next hlooked
    obtain ⟨z, hthrough, hnext⟩ := h path.place _ hi
    have hle := State.position_of_looked hlooked
    exact .of_looked ⟨body, kind.isBehind⟩ hthrough hfound hlooked
      (Nat.le_of_eq hle.symm) rfl hnext

end Program

/-! Expressions. -/

namespace Lowering

open RegexEngine.Tree

variable {group : Nat} {x y z : Stage}

/-- The instructions that a step gives for an address are entered at a stage and left at another. -/
def Lowers (group at_ : Nat) (y z : Stage) (step : Step (List Instr)) : Prop :=
  Returns step fun code => Stretch Stage.Next (Instr.Charted group) at_ code y z.Next

variable {at_ : Nat} {step : Step (List Instr)}

theorem lowers_nil (hnext : y.Next z) : Lowers group at_ y z (pure []) :=
  returns_pure (stretch_nil fun _ h => hnext.trans h)

/-- An instruction that only leads to the next one. -/
theorem stretch_onward (hnext : y.Next z) {i : Instr}
    (hi : ∀ chart, i.Charted group chart at_ = (chart at_).Next (chart (at_ + 1))) :
    Stretch Stage.Next (Instr.Charted group) at_ [i] y z.Next := by
  apply stretch_single
  intro chart hfirst hends
  rw [hi, hfirst]
  exact hnext.trans hends

theorem returns_flags? {α : Type} {next : Flags → Step α} {post : α → Prop}
    (h : ∀ flags, Returns (next flags) post) : Returns (flags? >>= next) post :=
  returns_bind_any h

theorem returns_classInstr (spec : List Char) :
    Returns (classInstr spec) fun i => ∃ offset length, i = .cls offset length :=
  returns_bind_any fun _ => returns_bind_any fun _ => returns_bind_any fun _ =>
    returns_pure ⟨_, _, rfl⟩

theorem returns_groupOperand (group : Nat) :
    Returns (groupOperand group : Step Nat) fun operand => operand = group := by
  intro l v l' hrun
  unfold groupOperand at hrun
  split at hrun
  · cases hrun
    rfl
  · cases hrun

theorem returns_keepingFlags {α : Type} {step : Step α} {post : α → Prop} (h : Returns step post) :
    Returns (keepingFlags step) post :=
  returns_flags? fun _ => returns_bind h fun _ hcode => returns_bind_any fun _ => returns_pure hcode

theorem charted_choice {chart : Nat → Stage} {enter exit : Nat} (greedy : Bool)
    (henter : (chart at_).Next (chart enter)) (hexit : (chart at_).Next (chart exit)) :
    (choice greedy enter exit).Charted group chart at_ := by
  unfold choice
  split
  · exact ⟨henter, hexit⟩
  · exact ⟨hexit, henter⟩

/-- A repetition of an expression that fits. -/
theorem lowers_repetition {lowerAt : Nat → Step (List Instr)}
    (h : ∀ at_, Lowers group at_ y z (lowerAt at_)) (hnext : y.Next z) {q : Quantifier}
    (hrecurs : q.recurs = true → z = y) (greedy : Bool) :
    Lowers group at_ y z (repetition at_ q.min q.max greedy lowerAt) := by
  simp only [Quantifier.recurs, Bool.or_eq_true, decide_eq_true_iff] at hrecurs
  generalize q.min = min at hrecurs ⊢
  generalize q.max = max at hrecurs ⊢
  unfold repetition
  split
  · obtain rfl : z = y := hrecurs (.inr rfl)
    refine returns_bind (h (at_ + 1)) fun code hcode => returns_pure ?_
    apply hcode.between
    · intro chart hfirst henter _ hends
      exact charted_choice greedy (hfirst ▸ henter) (hfirst ▸ hends)
    · intro chart hfirst hlast _
      rw [Instr.Charted, hfirst, hlast]
      exact .same z
  · obtain rfl : z = y := hrecurs (.inr rfl)
    refine returns_bind (h at_) fun code hcode => returns_pure ?_
    apply hcode.concat
    intro chart henter hlast hends
    exact charted_choice greedy (hlast ▸ henter) (hlast ▸ hends)
  · refine returns_bind (h (at_ + 1)) fun code hcode => returns_pure ?_
    apply hcode.cons
    intro chart hfirst henter hends
    exact charted_choice greedy (hfirst ▸ henter) (hfirst ▸ hnext.trans hends)
  · exact h at_
  · exact lowers_nil hnext
  · rename_i hnever _ _ hmaybe honce
    obtain rfl : z = y := by
      apply hrecurs
      cases max with
      | none => exact .inr rfl
      | some most =>
        simp only [Option.some.injEq, imp_false] at hnever hmaybe honce
        simp only [Option.all_some, decide_eq_true_iff]
        omega
    refine returns_bind (h (at_ + 1)) fun code hcode => returns_pure ?_
    apply hcode.between
    · intro chart hfirst henter _ hends
      exact ⟨hfirst ▸ henter, hfirst ▸ hends⟩
    · intro chart hfirst hlast _
      rw [Instr.Charted, hfirst, hlast]
      exact .same z

/-- The group itself. -/
theorem stretch_captured_self {code : List Instr}
    (h : Stretch Stage.Next (Instr.Charted group) (at_ + 1) code .within Stage.within.Next) :
    Stretch Stage.Next (Instr.Charted group) at_ (.openGroup group :: code ++ [.closeGroup group]) .outside
      Stage.outside.Next := by
  apply h.between
  · intro chart hfirst henter _ _
    rw [Instr.Charted, if_pos rfl]
    exact ⟨hfirst, henter.isLevel (.inr rfl)⟩
  · intro chart _ hlast hends
    rw [Instr.Charted, if_pos rfl]
    exact ⟨hlast, Stage.Next.leaves.trans hends⟩

/-- Another group. -/
theorem stretch_captured_other {code : List Instr} {other : Nat} (hpos : 0 < other)
    (hne : other ≠ group) (h : Stretch Stage.Next (Instr.Charted group) (at_ + 1) code y z.Next) :
    Stretch Stage.Next (Instr.Charted group) at_ (.openGroup other :: code ++ [.closeGroup other]) y
      z.Next := by
  apply h.between
  · intro chart hfirst henter _ _
    rw [Instr.Charted, if_neg hne, hfirst]
    exact ⟨hpos, henter⟩
  · intro chart _ hlast hends
    rw [Instr.Charted, if_neg hne, hlast]
    exact ⟨hpos, hends⟩

theorem stretch_look {code : List Instr} {e e' : Stage}
    (h : Stretch Stage.Next (Instr.Charted group) (at_ + 1) code e e'.Next)
    (hthrough : Stage.Through false y e z) (kind : LookKind) :
    Stretch Stage.Next (Instr.Charted group) at_
      (.look kind (at_ + 1) (at_ + code.length + 2) :: code ++ [.accept]) y z.Next := by
  apply h.between
  · intro chart hfirst henter _ hends
    exact ⟨z, hfirst ▸ hthrough.next henter, hends⟩
  · exact fun _ _ _ _ => trivial

theorem branchesLength_joinBranches (stop : Nat) : ∀ (at_ : Nat) (codes : List (List Instr)),
    (joinBranches at_ stop codes).length = branchesLength codes
  | _, [] | _, [_] => rfl
  | at_, code :: next :: rest => by
    have hrest := branchesLength_joinBranches stop (at_ + code.length + 2) (next :: rest)
    simp [joinBranches, branchesLength, hrest]
    omega

/-- Alternatives that are entered at the same stage, joined where they end. -/
theorem stretch_joinBranches_cons {σ : Type} {next : σ → σ → Prop} [Std.Refl next]
    {fits : (Nat → σ) → Nat → Instr → Prop} {x y z : σ}
    (hsplit : ∀ chart k first second, chart k = y → next y (chart first) → next y (chart second) →
      fits chart k (.split first second))
    (hjump : ∀ chart k target, chart k = z → next z (chart target) → fits chart k (.jump target))
    {code other : List Instr} {rest : List (List Instr)} (hx : next x z)
    (h : Stretch next fits (at_ + 1) code y (next x)) {stop : Nat}
    (hstop : stop = at_ + branchesLength (code :: other :: rest))
    (hrest : Stretch next fits (at_ + code.length + 2)
      (joinBranches (at_ + code.length + 2) stop (other :: rest)) y (next z)) :
    Stretch next fits at_ (joinBranches at_ stop (code :: other :: rest)) y (next z) := by
  obtain ⟨stages, hlength, hfits⟩ := h
  obtain ⟨stages', hlength', hfits'⟩ := hrest
  refine ⟨y :: stages ++ z :: stages', ?_, fun chart hstages hends => ?_⟩
  · simp [joinBranches, hlength, hlength']
  have hplace : at_ + 1 + code.length = at_ + code.length + 1 := by omega
  have hend : at_ + (joinBranches at_ stop (code :: other :: rest)).length = stop := by
    rw [branchesLength_joinBranches, hstop]
  have hend' : at_ + code.length + 2 +
      (joinBranches (at_ + code.length + 2) stop (other :: rest)).length = stop := by
    rw [branchesLength_joinBranches, hstop]
    simp only [branchesLength]
    omega
  obtain ⟨hstart, hstages, hleave, hstages'⟩ : chart at_ = y ∧ HasStages chart (at_ + 1) stages ∧
      chart (at_ + code.length + 1) = z ∧ HasStages chart (at_ + code.length + 2) stages' := by
    rw [List.cons_append] at hstages
    obtain ⟨hstart, hrest⟩ := hstages
    rw [allFrom_append, hlength, hplace] at hrest
    exact ⟨hstart, hrest⟩
  rw [hend] at hends
  obtain ⟨henter, hcode⟩ := hfits chart hstages (by rw [hplace, hleave]; exact hx)
  obtain ⟨hnext, hmore⟩ := hfits' chart hstages' (by rw [hend']; exact hends)
  have hleaves := hjump chart (at_ + code.length + 1) stop hleave hends
  refine ⟨hstart ▸ Std.Refl.refl _, hsplit chart at_ _ _ hstart henter hnext, ?_⟩
  exact allFrom_append.mpr ⟨hcode, hplace ▸ hleaves, hplace ▸ hmore⟩

mutual

/-- The instructions of an expression are entered and left at stages that the expression fits. -/
theorem lowers_lower (group : Nat) (groups : List (Option String)) : (t : Tree) → (at_ : Nat) →
    (y z : Stage) → t.Fits group y z → Lowers group at_ y z (lower groups at_ t)
  | .empty, _, _, _, h | .comment _, _, _, _, h => lowers_nil h
  | .literal _, _, _, _, h => returns_bind_any fun _ => returns_pure (stretch_onward h fun _ => rfl)
  | .dot, _, _, _, h => returns_flags? fun _ => returns_pure (stretch_onward h fun _ => rfl)
  | .cls _ _, _, _, _, h => by
    refine returns_flags? fun _ => returns_bind (returns_classInstr _) fun i hi => returns_pure ?_
    obtain ⟨offset, length, rfl⟩ := hi
    exact stretch_onward h fun _ => rfl
  | .group c, at_, y, z, h => returns_keepingFlags (lowers_lower group groups c at_ y z h)
  | .scope _ c, at_, y, z, h =>
    returns_keepingFlags (returns_bind_any fun _ => lowers_lower group groups c at_ y z h)
  | .capture index _ c, at_, y, z, h => by
    obtain ⟨hpos, h⟩ := h
    apply returns_keepingFlags
    refine returns_bind (returns_groupOperand index) fun _ hindex => ?_
    subst hindex
    split at h
    · rename_i heq
      obtain ⟨rfl, rfl, hchild⟩ := h
      refine returns_bind (lowers_lower group groups c _ _ _ hchild) fun code hcode => ?_
      exact returns_pure (heq ▸ stretch_captured_self (heq ▸ hcode))
    · rename_i hne
      refine returns_bind (lowers_lower group groups c _ y z h) fun code hcode => ?_
      exact returns_pure (stretch_captured_other hpos hne hcode)
  | .backref _, _, _, _, h =>
    returns_bind_any fun _ => returns_bind_any fun _ => returns_bind_any fun _ =>
      returns_pure (stretch_onward h fun _ => rfl)
  | .repetition q c, at_, y, z, h => by
    rw [Fits] at h
    rw [lower]
    split at h
    · rename_i hpossessive
      rw [if_pos hpossessive]
      intro l code l' hrun
      cases hrun
    · rename_i hgreedy
      obtain ⟨hchild, hnext, hrecurs⟩ := h
      rw [if_neg hgreedy]
      refine returns_bind_any fun _ => ?_
      exact lowers_repetition (fun at_ => lowers_lower group groups c at_ y z hchild) hnext
        hrecurs _
  | .anchor _, _, _, _, h => returns_flags? fun _ => returns_pure (stretch_onward h fun _ => rfl)
  | .boundary _, _, _, _, h => returns_pure (stretch_onward h fun _ => rfl)
  | .look kind c, at_, y, z, h => by
    obtain ⟨e, e', hchild, hthrough⟩ := h
    refine returns_bind (returns_keepingFlags (lowers_lower group groups c (at_ + 1) e e' hchild))
      fun code hcode => returns_pure ?_
    exact stretch_look hcode hthrough kind
  | .options _, _, _, _, h => returns_bind_any fun _ => lowers_nil h
  | .atomic _, _, _, _, _ | .groupCond _ _ _, _, _, _, _ | .lookCond _ _ _ _, _, _, _, _
  | .verb .commit, _, _, _, _ => returns_throw _
  | .verb .fail, _, _, _, _ | .invalid, _, _, _, _ | .verb .accept, _, _, _, _ =>
    returns_pure (stretch_single fun _ _ _ => trivial)
  | .alt items, at_, y, z, h => by
    obtain ⟨heach, hnext⟩ := h
    apply returns_keepingFlags
    refine returns_bind (lowers_lowerBranches group groups items at_ y z heach hnext)
      fun codes ⟨_, hcodes⟩ => returns_pure ?_
    exact hcodes _ rfl
  | .concat items, at_, y, z, h => lowers_lowerAll group groups items at_ y z h

theorem lowers_lowerAll (group : Nat) (groups : List (Option String)) : (items : List Tree) →
    (at_ : Nat) → (y z : Stage) → FitsAll group items y z →
      Lowers group at_ y z (lowerAll groups at_ items)
  | [], _, _, _, h => lowers_nil h
  | item :: rest, at_, y, z, h => by
    obtain ⟨x, hitem, hrest⟩ := h
    refine returns_bind (lowers_lower group groups item at_ y x hitem) fun code hcode => ?_
    refine returns_bind (lowers_lowerAll group groups rest _ x z hrest) fun more hmore => ?_
    exact returns_pure (hcode.append hmore)

/-- The instructions of alternatives can be joined. -/
theorem lowers_lowerBranches (group : Nat) (groups : List (Option String)) : (items : List Tree) →
    (at_ : Nat) → (y z : Stage) → FitsEach group items y z → y.Next z →
      Returns (lowerBranches groups at_ items) fun codes => codes.length = items.length ∧
        ∀ stop, stop = at_ + branchesLength codes →
          Stretch Stage.Next (Instr.Charted group) at_ (joinBranches at_ stop codes) y z.Next
  | [], _, _, _, _, hnext => returns_pure ⟨rfl, fun _ _ => stretch_nil fun _ h => hnext.trans h⟩
  | [item], at_, y, z, h, _ => by
    obtain ⟨⟨x, hitem, hx⟩, _⟩ := h
    refine returns_bind (lowers_lower group groups item at_ y x hitem) fun code hcode => ?_
    exact returns_pure ⟨rfl, fun _ _ => hcode.leave fun _ h => hx.trans h⟩
  | item :: next :: rest, at_, y, z, h, hnext => by
    obtain ⟨⟨x, hitem, hx⟩, hrest⟩ := h
    refine returns_bind (lowers_lower group groups item (at_ + 1) y x hitem) fun code hcode => ?_
    refine returns_bind (lowers_lowerBranches group groups (next :: rest) _ y z hrest hnext)
      fun codes ⟨hlength, hcodes⟩ => returns_pure ⟨by simp [hlength], fun stop hstop => ?_⟩
    cases codes with
    | nil => cases hlength
    | cons second others =>
      refine stretch_joinBranches_cons ?_ ?_ hx hcode hstop ?_
      · exact fun chart k _ _ hk hfirst hsecond => ⟨hk ▸ hfirst, hk ▸ hsecond⟩
      · intro chart k target hk htarget
        rw [Instr.Charted, hk]
        exact htarget
      apply hcodes
      rw [hstop]
      simp only [branchesLength]
      omega

end

end Lowering

namespace Program

/-- A chart fits a program, and lets searches start at a stage. -/
def StartsAt (group : Nat) (z : Stage) (p : Program) : Prop :=
  ∃ chart, p.Charted group chart ∧ z.Next (chart 0)

variable {group : Nat} {y z : Stage}

theorem StartsAt.of_stretch {code : List Instr} {p : Program}
    (h : Stretch Stage.Next (Instr.Charted group) 0 code y fun _ => True) (hp : p.instrs = code.toArray) :
    p.StartsAt group y := by
  obtain ⟨stages, _, hfits⟩ := h
  obtain ⟨hstart, hcode⟩ := hfits _ (hasStages_getD stages y) trivial
  refine ⟨fun k => stages[k]?.getD y, fun at_ i hi => ?_, hstart⟩
  rw [hp, List.getElem?_toArray] at hi
  have hcharted := allFrom_iff.mp hcode at_ i hi
  rwa [Nat.zero_add] at hcharted

theorem ofCode_ok {code : List Instr} {groups : Nat} {names : List (Option String)}
    {flags : Flags} {classes : ClassPool} {p : Program}
    (h : ofCode code groups names flags classes = .ok p) :
    p = ⟨code.toArray, groups, names, flags, none, classes⟩ := by
  unfold ofCode at h
  split at h
  · cases h
  · cases h
    rfl

/-- A program is put together from the code of an expression, and ends behind it. -/
theorem ofTree_ok {tree : SyntaxTree} {p : Program} (h : ofTree tree = .ok p) :
    ∃ (code : List Instr) (l : Lowering),
      (Lowering.lower tree.groups 0 tree.root).run ⟨tree.flags, .empty⟩ = .ok (code, l) ∧
        p = ⟨(code ++ [Instr.accept]).toArray, tree.groupCount, tree.groups, tree.flags, none,
          l.classes⟩ := by
  unfold ofTree at h
  cases hrun : (Lowering.lower tree.groups 0 tree.root).run ⟨tree.flags, .empty⟩ with
  | error e =>
    rw [hrun] at h
    cases h
  | ok answer =>
    rw [hrun] at h
    exact ⟨answer.1, answer.2, rfl, ofCode_ok h⟩

/-- The program of an expression is entered at any stage that it fits. -/
theorem ofTree_startsAt {tree : SyntaxTree} {p : Program} (hfits : tree.root.Fits group y z)
    (h : ofTree tree = .ok p) : p.StartsAt group y := by
  obtain ⟨code, l, hrun, rfl⟩ := ofTree_ok h
  have hcode := Lowering.lowers_lower group tree.groups tree.root 0 y z hfits _ code l hrun
  have hend : Stretch Stage.Next (Instr.Charted group) (0 + code.length) [.accept] z fun _ => True :=
    stretch_single fun _ _ _ => trivial
  exact .of_stretch (hcode.append hend) rfl

end Program

end RegexEngine
