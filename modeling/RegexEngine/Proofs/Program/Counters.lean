import RegexEngine.Proofs.Program.Charts
import RegexEngine.Proofs.Search.Machine

/-!
The counters of programs. A way carries a counter for each repetition that it is in, and a chart
says which repetitions these are at each address, the innermost first. If a chart fits a program,
then a way that starts without counters always has those that the chart says: a round ends in its
own repetition, no way runs past the last instruction, and no instruction fails. The body of a
lookaround starts without counters, whatever repetitions the lookaround stands in.
-/

namespace RegexEngine

/-- An instruction that stands at an address, in some repetitions, fits a chart. -/
def Instr.Nested (nest : Nat → Option (List Nat)) (at_ : Nat) (around : List Nat) : Instr → Prop
  | jump target => nest target = some around
  | split first second => nest first = some around ∧ nest second = some around
  | repeatStart _ _ _ stop => nest (at_ + 1) = some (at_ :: around) ∧ nest (stop + 1) = some around
  | repeatEnd start => ∃ outer, around = start :: outer ∧ nest start = some outer
  | look _ body next => nest body = some [] ∧ nest next = some around
  | accept | fail => True
  | _ => nest (at_ + 1) = some around

namespace Program

/-- A chart of the repetitions around addresses fits a program. Addresses outside have no place in
it. -/
structure Nested (nest : Nat → Option (List Nat)) (p : Program) : Prop where
  inside : ∀ at_ around, nest at_ = some around → at_ < p.length
  fits : ∀ at_ i around, p.instrs[at_]? = some i → nest at_ = some around →
    i.Nested nest at_ around

/-- All classes that instructions refer to are known. -/
def KnowsClasses (p : Program) : Prop :=
  ∀ offset length, .cls offset length ∈ p.instrs → (p.classes.matcher? offset length).isSome = true

/-- A repetition starts at an address. -/
def RepeatsAt (p : Program) (start : Nat) : Prop :=
  ∃ min max greedy stop, p.instrs[start]? = some (.repeatStart min max greedy stop)

/-- The counters of a path are those of the repetitions around its place. -/
structure Counts (nest : Nat → Option (List Nat)) (p : Program) (path : Path) : Prop where
  around : nest path.place = some (path.counters.map (·.start))
  repeats : ∀ counter ∈ path.counters, p.RepeatsAt counter.start

variable {nest : Nat → Option (List Nat)} {p : Program} {path next : Path}

theorem within_dead {P : Path → Prop} : Move.dead.Within P := fun _ hframe => by cases hframe

theorem within_along {P : Path → Prop} (h : P next) : (Move.along next).Within P := by
  intro frame hframe
  obtain rfl := List.mem_singleton.mp hframe
  exact h

theorem within_both {P : Path → Prop} {other : Path} (h : P next) (h' : P other) :
    (Move.go [.follow next, .follow other] false).Within P := by
  intro frame hframe
  simp only [List.mem_cons, List.not_mem_nil, or_false] at hframe
  rcases hframe with rfl | rfl
  · exact h
  · exact h'

/-- A way that goes on with the same counters has those of its new place. -/
theorem Counts.along (h : p.Counts nest path) (hcounters : next.counters = path.counters)
    (hplace : nest next.place = some (path.counters.map (·.start))) : p.Counts nest next :=
  ⟨hcounters ▸ hplace, hcounters ▸ h.repeats⟩

theorem within_takeIf (h : p.Counts nest path)
    (hplace : nest (path.place + 1) = some (path.counters.map (·.start))) (input : Array Char)
    (fits : Char → Bool) : (takeIf input path fits).Within (p.Counts nest) := by
  unfold takeIf
  split
  · exact within_along (h.along rfl hplace)
  · exact within_dead

/-- A repetition whose counter is the innermost one can come round. -/
theorem exists_comeRound (h : p.Nested nest) (path : Path) (counter : Counter)
    {outer : List Counter} (hcounters : path.counters = counter :: outer)
    (hplace : nest counter.start = some (outer.map (·.start)))
    (hrepeats : p.RepeatsAt counter.start) (houter : ∀ c ∈ outer, p.RepeatsAt c.start) :
    ∃ move, p.comeRound path counter.start = .ok move ∧ move.Within (p.Counts nest) := by
  obtain ⟨min, max, greedy, stop, hinstr⟩ := hrepeats
  obtain ⟨hinside, hbehind⟩ := h.fits _ _ _ hinstr hplace
  have hentering : p.Counts nest { path with
      place := counter.start + 1
      counters := { counter with since := path.position } :: outer } :=
    ⟨hinside, List.forall_mem_cons.mpr ⟨⟨_, _, _, _, hinstr⟩, houter⟩⟩
  have hleaving : p.Counts nest { path with place := stop + 1, counters := outer } :=
    ⟨hbehind, houter⟩
  have hstart : p.instr counter.start = .ok (.repeatStart min max greedy stop) := by
    rw [instr, hinstr]
  unfold comeRound
  rw [hstart, hcounters]
  dsimp only [bind, Except.bind]
  split
  · exact ⟨_, rfl, within_along hentering⟩
  · split
    · exact ⟨_, rfl, within_along hleaving⟩
    · split
      · exact ⟨_, rfl, within_both hentering hleaving⟩
      · exact ⟨_, rfl, within_both hleaving hentering⟩

/-- The round that ends is one of the innermost repetition. -/
theorem exists_endRound (h : p.Nested nest) {start : Nat} {outer : List Nat}
    (hpath : p.Counts nest path) (haround : path.counters.map (·.start) = start :: outer)
    (hplace : nest start = some outer) :
    ∃ move, p.endRound path start = .ok move ∧ move.Within (p.Counts nest) := by
  obtain ⟨counter, counters, hcounters, rfl, rfl⟩ := List.map_eq_cons_iff.mp haround
  have hrepeats := hpath.repeats
  rw [hcounters] at hrepeats
  obtain ⟨hcounter, houter⟩ := List.forall_mem_cons.mp hrepeats
  obtain ⟨min, max, greedy, stop, hinstr⟩ := id hcounter
  have hstart : p.instr counter.start = .ok (.repeatStart min max greedy stop) := by
    rw [instr, hinstr]
  unfold endRound
  rw [hcounters]
  dsimp only
  rw [if_pos rfl, hstart]
  exact exists_comeRound h _ { counter with rounds := counter.rounds + 1 } rfl hplace hcounter
    houter

/-- In a program that a chart of its repetitions fits, an instruction always has a move to make. -/
theorem Nested.exists_execute (h : p.Nested nest) (hclasses : p.KnowsClasses)
    (hpath : p.Counts nest path) (input : Array Char) {i : Instr}
    (hi : p.instrs[path.place]? = some i) :
    ∃ move, p.execute input path i = .ok move ∧ move.Within (p.Counts nest) := by
  have hfits := h.fits _ _ _ hi hpath.around
  have hbody (address : Nat) (haddress : nest address = some []) (position : Nat) (slots : Slots) :
      p.Counts nest (.start address position slots) :=
    ⟨haddress, by simp [Path.start]⟩
  cases i with
  | nop | openGroup | closeGroup => exact ⟨_, rfl, within_along (hpath.along rfl hfits)⟩
  | char | any => exact ⟨_, rfl, within_takeIf hpath hfits _ _⟩
  | cls offset length =>
    obtain ⟨matcher, hmatcher⟩ :=
      Option.isSome_iff_exists.mp (hclasses _ _ (Array.mem_of_getElem? hi))
    simp only [execute, hmatcher]
    split
    · exact ⟨_, rfl, within_along (hpath.along rfl hfits)⟩
    · exact ⟨_, rfl, within_dead⟩
  | jump => exact ⟨_, rfl, within_along (hpath.along rfl hfits)⟩
  | split =>
    exact ⟨_, rfl, within_both (hpath.along rfl hfits.1) (hpath.along rfl hfits.2)⟩
  | boundary marks =>
    refine ⟨_, rfl, ?_⟩
    split
    · exact within_along (hpath.along rfl hfits)
    · exact within_dead
  | backref group nocase =>
    unfold execute
    dsimp only
    split
    · exact ⟨_, rfl, within_dead⟩
    · exact ⟨_, rfl, within_along (hpath.along rfl hfits)⟩
  | repeatStart min max greedy stop =>
    exact exists_comeRound h _ ⟨path.place, 0, path.position⟩ rfl hpath.around ⟨_, _, _, _, hi⟩
      hpath.repeats
  | repeatEnd start =>
    obtain ⟨outer, haround, hplace⟩ := hfits
    exact exists_endRound h hpath haround hplace
  | look kind body next => exact ⟨_, rfl, hbody body hfits.1, hpath⟩
  | accept => exact ⟨_, rfl, trivial⟩
  | fail => exact ⟨_, rfl, within_dead⟩

theorem counters_of_looked {kind : LookKind} {found : Option Found}
    (h : State.looked? kind path found = some next) : next.counters = path.counters := by
  unfold State.looked? at h
  split at h <;> split at h <;> cases h <;> rfl

/-- A program that a chart of its repetitions fits never fails. -/
theorem Nested.closedOn (h : p.Nested nest) (hclasses : p.KnowsClasses) :
    p.code.ClosedOn (p.Counts nest) := by
  have hinstr {path : Path} (hpath : p.Counts nest path) :
      ∃ i, p.instrs[path.place]? = some i ∧ p.instr path.place = .ok i := by
    have hlt : path.place < p.instrs.size := h.inside _ _ hpath.around
    exact ⟨p.instrs[path.place], Array.getElem?_eq_getElem hlt, by simp [instr, hlt]⟩
  constructor
  · intro input inBody path hpath
    obtain ⟨i, hi, hok⟩ := hinstr hpath
    have hentered : p.Counts nest path.entered := ⟨hpath.around, hpath.repeats⟩
    obtain ⟨move, hmove, hwithin⟩ := h.exists_execute hclasses hentered input hi
    refine ⟨move, ?_, hwithin⟩
    change (p.instr path.place >>= fun i => p.execute input path.entered i) = .ok move
    rw [hok]
    exact hmove
  · intro input inBody path found hpath
    obtain ⟨i, hi, hok⟩ := hinstr hpath
    refine ⟨afterLook path found i, ?_, ?_⟩
    · change (p.instr path.place >>= fun i => pure (afterLook path found i)) = _
      rw [hok]
      rfl
    · have hfits := h.fits _ _ _ hi hpath.around
      unfold afterLook
      split
      · split
        · rename_i kind body after _ next hlooked
          have hcounters := counters_of_looked hlooked
          exact within_along (hpath.along hcounters hfits.2)
        · exact within_dead
      · exact within_dead

end Program

/-! Expressions. -/

namespace Lowering

open RegexEngine.Tree

variable {at_ : Nat} {around : List Nat}

instance : Std.Refl (@Eq (Option (List Nat))) := ⟨Eq.refl⟩

/-- An instruction fits a chart, in the repetitions that the chart says. -/
def NestsAt (chart : Nat → Option (List Nat)) (at_ : Nat) (i : Instr) : Prop :=
  ∀ around, chart at_ = some around → i.Nested chart at_ around

/-- Instructions that stand in some repetitions, at an address and those after it. -/
abbrev Enclosed (around : List Nat) (at_ : Nat) (code : List Instr) : Prop :=
  Stretch Eq NestsAt at_ code (some around) (some around = ·)

theorem nestsAt {chart : Nat → Option (List Nat)} {i : Instr} (h : chart at_ = some around)
    (hi : i.Nested chart at_ around) : NestsAt chart at_ i := by
  intro around' h'
  cases h.symm.trans h'
  exact hi

theorem enclosed_nil : Enclosed around at_ [] := stretch_nil fun _ h => h

/-- An instruction that leads to the next one, or nowhere. -/
theorem enclosed_single {i : Instr}
    (hi : ∀ chart, chart (at_ + 1) = some around → i.Nested chart at_ around) :
    Enclosed around at_ [i] :=
  stretch_single fun _ hfirst hends => nestsAt hfirst (hi _ hends.symm)

theorem nested_choice {chart : Nat → Option (List Nat)} {enter exit : Nat} (greedy : Bool)
    (henter : chart enter = some around) (hexit : chart exit = some around) :
    (choice greedy enter exit).Nested chart at_ around := by
  unfold choice
  split
  · exact ⟨henter, hexit⟩
  · exact ⟨hexit, henter⟩

/-- A repetition either repeats what it builds by choices and jumps, or it counts. -/
theorem returns_repetition {lowerAt : Nat → Step (List Instr)}
    (h : ∀ at_ around, Returns (lowerAt at_) (Enclosed around at_)) (min : Nat)
    (max : Option Nat) (greedy : Bool) :
    Returns (repetition at_ min max greedy lowerAt) (Enclosed around at_) := by
  unfold repetition
  split
  · refine returns_bind (h (at_ + 1) around) fun code hcode => returns_pure ?_
    apply hcode.between
    · intro chart hfirst henter _ hends
      exact nestsAt hfirst (nested_choice greedy henter.symm hends.symm)
    · exact fun chart hfirst hlast _ => nestsAt hlast hfirst
  · refine returns_bind (h at_ around) fun code hcode => returns_pure ?_
    apply hcode.concat
    intro chart henter hlast hends
    exact nestsAt hlast (nested_choice greedy henter.symm hends.symm)
  · refine returns_bind (h (at_ + 1) around) fun code hcode => returns_pure ?_
    apply hcode.cons
    intro chart hfirst henter hends
    exact nestsAt hfirst (nested_choice greedy henter.symm hends.symm)
  · exact h at_ around
  · exact returns_pure enclosed_nil
  · refine returns_bind (h (at_ + 1) (at_ :: around)) fun code hcode => returns_pure ?_
    apply hcode.between
    · exact fun chart hfirst henter _ hends => nestsAt hfirst ⟨henter.symm, hends.symm⟩
    · exact fun chart hfirst hlast _ => nestsAt hlast ⟨around, rfl, hfirst⟩

theorem enclosed_captured {code : List Instr} (h : Enclosed around (at_ + 1) code) (group : Nat) :
    Enclosed around at_ (.openGroup group :: code ++ [.closeGroup group]) := by
  apply h.between
  · exact fun chart hfirst henter _ _ => nestsAt hfirst henter.symm
  · exact fun chart _ hlast hends => nestsAt hlast hends.symm

/-- The body of a lookaround stands in no repetition but its own. -/
theorem enclosed_look {code : List Instr} (h : Enclosed [] (at_ + 1) code) (kind : LookKind) :
    Enclosed around at_ (.look kind (at_ + 1) (at_ + code.length + 2) :: code ++ [.accept]) := by
  apply h.between
  · exact fun chart hfirst henter _ hends => nestsAt hfirst ⟨henter.symm, hends.symm⟩
  · exact fun chart _ hlast _ => nestsAt hlast trivial

mutual

/-- The instructions of an expression stand in the repetitions around it. -/
theorem returns_lower (groups : List (Option String)) : (t : Tree) → (at_ : Nat) →
    (around : List Nat) → Returns (lower groups at_ t) (Enclosed around at_)
  | .empty, _, _ | .comment _, _, _ => returns_pure enclosed_nil
  | .literal _, _, _ => returns_bind_any fun _ => returns_pure (enclosed_single fun _ h => h)
  | .dot, _, _ => returns_flags? fun _ => returns_pure (enclosed_single fun _ h => h)
  | .cls _ _, _, _ => by
    refine returns_flags? fun _ => returns_bind (returns_classInstr _) fun i hi => returns_pure ?_
    obtain ⟨offset, length, rfl⟩ := hi
    exact enclosed_single fun _ h => h
  | .group c, at_, around => returns_keepingFlags (returns_lower groups c at_ around)
  | .scope _ c, at_, around =>
    returns_keepingFlags (returns_bind_any fun _ => returns_lower groups c at_ around)
  | .capture index _ c, at_, around => by
    refine returns_keepingFlags (returns_bind_any fun group => ?_)
    refine returns_bind (returns_lower groups c (at_ + 1) around) fun code hcode => ?_
    exact returns_pure (enclosed_captured hcode group)
  | .backref _, _, _ =>
    returns_bind_any fun _ => returns_bind_any fun _ => returns_bind_any fun _ =>
      returns_pure (enclosed_single fun _ h => h)
  | .repetition q c, at_, around => by
    rw [lower]
    split
    · exact returns_throw _
    · refine returns_bind_any fun _ => ?_
      exact returns_repetition (fun at_ around => returns_lower groups c at_ around) _ _ _
  | .anchor _, _, _ => returns_flags? fun _ => returns_pure (enclosed_single fun _ h => h)
  | .boundary _, _, _ => returns_pure (enclosed_single fun _ h => h)
  | .look kind c, at_, _ => by
    refine returns_bind (returns_keepingFlags (returns_lower groups c (at_ + 1) []))
      fun code hcode => returns_pure ?_
    exact enclosed_look hcode kind
  | .options _, _, _ => returns_bind_any fun _ => returns_pure enclosed_nil
  | .atomic _, _, _ | .groupCond _ _ _, _, _ | .lookCond _ _ _ _, _, _ | .verb .commit, _, _ =>
    returns_throw _
  | .verb .fail, _, _ | .invalid, _, _ | .verb .accept, _, _ =>
    returns_pure (enclosed_single fun _ _ => trivial)
  | .alt items, at_, around => by
    apply returns_keepingFlags
    refine returns_bind (returns_lowerBranches groups items at_ around)
      fun codes ⟨_, hcodes⟩ => returns_pure ?_
    exact hcodes _ rfl
  | .concat items, at_, around => returns_lowerAll groups items at_ around

theorem returns_lowerAll (groups : List (Option String)) : (items : List Tree) → (at_ : Nat) →
    (around : List Nat) → Returns (lowerAll groups at_ items) (Enclosed around at_)
  | [], _, _ => returns_pure enclosed_nil
  | item :: rest, at_, around => by
    refine returns_bind (returns_lower groups item at_ around) fun code hcode => ?_
    refine returns_bind (returns_lowerAll groups rest _ around) fun more hmore => ?_
    exact returns_pure (hcode.append hmore)

/-- The instructions of alternatives can be joined. -/
theorem returns_lowerBranches (groups : List (Option String)) : (items : List Tree) →
    (at_ : Nat) → (around : List Nat) →
      Returns (lowerBranches groups at_ items) fun codes => codes.length = items.length ∧
        ∀ stop, stop = at_ + branchesLength codes →
          Enclosed around at_ (joinBranches at_ stop codes)
  | [], _, _ => returns_pure ⟨rfl, fun _ _ => enclosed_nil⟩
  | [item], at_, around => by
    refine returns_bind (returns_lower groups item at_ around) fun code hcode => ?_
    exact returns_pure ⟨rfl, fun _ _ => hcode⟩
  | item :: next :: rest, at_, around => by
    refine returns_bind (returns_lower groups item (at_ + 1) around) fun code hcode => ?_
    refine returns_bind (returns_lowerBranches groups (next :: rest) _ around)
      fun codes ⟨hlength, hcodes⟩ => returns_pure ⟨by simp [hlength], fun stop hstop => ?_⟩
    cases codes with
    | nil => cases hlength
    | cons second others =>
      refine stretch_joinBranches_cons ?_ ?_ rfl hcode hstop ?_
      · exact fun _ _ _ _ hk hfirst hsecond => nestsAt hk ⟨hfirst.symm, hsecond.symm⟩
      · exact fun _ _ _ hk htarget => nestsAt hk htarget.symm
      · apply hcodes
        rw [hstop]
        simp only [branchesLength]
        omega

end

end Lowering

/-- The program of an expression starts in no repetition, and its repetitions are where a chart
says. -/
theorem Program.ofTree_nested {tree : SyntaxTree} {p : Program} (h : ofTree tree = .ok p) :
    ∃ nest, p.Nested nest ∧ nest 0 = some [] := by
  obtain ⟨code, l, hrun, rfl⟩ := ofTree_ok h
  have hcode := Lowering.returns_lower tree.groups tree.root 0 [] _ code l hrun
  have hend : Stretch Eq Lowering.NestsAt (0 + code.length) [.accept] (some []) fun _ => True :=
    stretch_single fun _ _ _ _ _ => trivial
  obtain ⟨stages, hlength, hfits⟩ := hcode.append hend
  obtain ⟨hstart, hall⟩ := hfits _ (hasStages_getD stages none) trivial
  refine ⟨fun k => stages[k]?.getD none, ⟨fun k around hk => ?_, fun k i around hi hk => ?_⟩,
    hstart.symm⟩
  · rw [Program.length, List.size_toArray, ← hlength]
    refine Nat.lt_of_not_le fun hout => ?_
    rw [List.getElem?_eq_none hout] at hk
    cases hk
  · rw [List.getElem?_toArray] at hi
    have hnests := allFrom_iff.mp hall k i hi
    rw [Nat.zero_add] at hnests
    exact hnests around hk

end RegexEngine
