import RegexEngine.Proofs.Automaton.Decided
import RegexEngine.Proofs.Automaton.LeadingOptions
import RegexEngine.Proofs.Pattern.Captures

/-!
Options in front of a text are flags that are asked for. A text with them is read as the text alone
with their flags; its automaton has at most one state more, which only leads on; and where
deterministic automata are made, both accept the same. So one of the texts can be compiled if the
other can, unless it is too large, and searches with the two patterns agree.
-/

namespace RegexEngine

open Tracked

/-- Attempts that find the last of some ends, with the same slots, are the same. -/
theorem Attempt.Meets.unique {A B : Attempt} {ends : Set Nat} {slots : Slots}
    (hA : A.Meets (IsGreatest ends)) (hB : B.Meets (IsGreatest ends))
    (hslots : ∀ f, A.found = some f → f.slots = slots)
    (hslots' : ∀ f, B.found = some f → f.slots = slots) : A = B := by
  obtain ⟨found, committed⟩ := A
  obtain ⟨found', committed'⟩ := B
  obtain ⟨rfl, hsound, hcomplete⟩ := hA
  obtain ⟨rfl, hsound', hcomplete'⟩ := hB
  dsimp only at hsound hsound' hcomplete hcomplete' hslots hslots'
  congr
  cases found with
  | none =>
    cases found' with
    | none => rfl
    | some f' => exact absurd (hsound' f' rfl) (hcomplete rfl f'.stop)
  | some f =>
    cases found' with
    | none => exact absurd (hsound f rfl) (hcomplete' rfl f.stop)
    | some f' =>
      have hstop : f.stop = f'.stop := (hsound f rfl).unique (hsound' f' rfl)
      have hsame : f.slots = f'.slots := (hslots f rfl).trans (hslots' f' rfl).symm
      cases f
      cases f'
      cases hstop
      cases hsame
      rfl

namespace Automaton

variable {a b c : Automaton}

/-! Automata whose attempts agree. -/

/-- Attempts on trim automata agree if both find the same on every way of searching. -/
theorem Trim.attempts_agree_of_gives {j k : Nat} (hb : b.Trim j) (hc : c.Trim k)
    (hgives : ∀ (search : Search) (start : Nat), start ≤ search.input.size →
      ∃ A, b.code.Gives search (b.firstWay j start) A ∧ c.code.Gives search (c.firstWay k start) A)
    {s s' : Search} (hs : s.Matches s') {start : Nat} (hstart : start ≤ s.input.size) :
    Agrees (b.attempt s start) (c.attempt s' start) := by
  obtain ⟨A, hA, hA'⟩ := hgives s start hstart
  have hfirst := attempt_ensures hb.wellFormed.inside hb.kind_eq hs.bailout_eq hb.initial_eq hstart
  have hsecond := attempt_ensures hc.wellFormed.inside hc.kind_eq hs.bailout_eq' hc.initial_eq
    (hs.input_eq ▸ hstart)
  refine agrees_of_ensures (ensures_mono hfirst fun _ h => h.unique hA)
    (ensures_mono hsecond fun _ h => h.unique ?_) fun hv hw => hv.trans hw.symm
  exact hA'.congr_search hs.input_eq hs.full_eq

theorem IsBare.groupCount_eq (h : a.IsBare) : a.groupCount = 0 := by
  refine Nat.le_zero.mp (groupCount_le_iff.mpr fun s hs => ?_)
  rw [(h s (Array.mem_toList_iff.mp hs)).1]
  exact Nat.le_refl 0

/-- An attempt on a deterministic automaton without groups finds the last end of a match, and says
nothing else. -/
theorem Determines.attempt_ensures (h : Determines a b) (hbare : b.IsBare) {search : Search}
    (hbailout : search.bailout = none) {start : Nat} (hstart : start ≤ search.input.size) :
    Ensures (b.attempt search start) fun A => A.Meets (IsGreatest (a.Ends search start)) ∧
      ∀ f, A.found = some f → f.slots = .unset 0 := by
  obtain ⟨i, hi⟩ := h.exists_initial
  have hmeets := h.deterministic.attempt_meets h.kind_eq hbailout h.exists_initial hstart
  rw [ends_congr h.accepts_eq] at hmeets
  refine hmeets.and_grants ?_
  rw [attempt, hi]
  dsimp only
  rw [if_pos h.kind_eq]
  exact grants_mono (longest_grants hstart) fun A hA f hf => hbare.groupCount_eq ▸ (hA f hf).2.2

/-- Two deterministic automata without groups agree if they accept the same as a third one. -/
theorem Determines.attempts_agree (hb : Determines a b) (hc : Determines a c) (hbare : b.IsBare)
    (hbare' : c.IsBare) {s s' : Search} (hs : s.Matches s') {start : Nat}
    (hstart : start ≤ s.input.size) : Agrees (b.attempt s start) (c.attempt s' start) := by
  have hends : a.Ends s' start = a.Ends s start := by
    unfold Ends Search.endsAt
    rw [hs.input_eq, hs.full_eq]
  have hsecond := hc.attempt_ensures hbare' hs.bailout_eq' (hs.input_eq ▸ hstart)
  rw [hends] at hsecond
  exact agrees_of_ensures (hb.attempt_ensures hbare hs.bailout_eq hstart) hsecond
    fun ⟨hmeets, hslots⟩ ⟨hmeets', hslots'⟩ => hmeets.unique hmeets' hslots hslots'

/-- Two automata that attempts agree on: those of one sort find the same on every way, those of the
other come of automata that accept the same. -/
inductive SearchedAlike : Automaton → Automaton → Prop
  | trim {b c : Automaton} {j k : Nat} : b.Trim j → c.Trim k →
      (∀ (search : Search) (start : Nat), start ≤ search.input.size →
        ∃ A, b.code.Gives search (b.firstWay j start) A ∧
          c.code.Gives search (c.firstWay k start) A) → SearchedAlike b c
  | deterministic {a b c : Automaton} : Determines a b → Determines a c → b.IsBare → c.IsBare →
      SearchedAlike b c

/-- Attempts agree whatever flags the automata have. -/
theorem SearchedAlike.attempts_agree (h : b.SearchedAlike c) (flags flags' : Flags) {s s' : Search}
    (hs : s.Matches s') {start : Nat} (hstart : start ≤ s.input.size) :
    Agrees (attempt { b with flags := flags } s start)
      (attempt { c with flags := flags' } s' start) := by
  cases h with
  | trim hb hc hgives =>
    exact (hb.withFlags flags).attempts_agree_of_gives (hc.withFlags flags') hgives hs hstart
  | deterministic hb hc hbare hbare' =>
    exact (hb.withFlags flags).attempts_agree (hc.withFlags flags')
      (isBare_of_states hbare rfl) (isBare_of_states hbare' rfl) hs hstart

end Automaton

namespace Pattern

open Automaton

/-! Computations that concur. -/

section

variable {α β γ δ : Type} {same : α → β → Prop} {x : Fresh (Except Error α)}
  {y : Fresh (Except Error β)}

/-- The results concur, from whatever numbers the states are counted. -/
def Concurs (same : α → β → Prop) (x : Fresh (Except Error α)) (y : Fresh (Except Error β)) :
    Prop :=
  ∀ base base' : UInt32, Concur same (x.run base).1 (y.run base').1

theorem fst_run_bindFresh (x : Fresh (Except Error α)) (f : α → Fresh (Except Error β))
    (base : UInt32) : ((bindFresh x f).run base).1 =
      (x.run base).1 >>= fun value => ((f value).run (x.run base).2).1 := by
  rw [run_bindFresh]
  rcases x.run base with ⟨e | value, nextId⟩ <;> rfl

namespace Concurs

theorem bindFresh {next : γ → δ → Prop} (h : Concurs same x y) {f : α → Fresh (Except Error γ)}
    {g : β → Fresh (Except Error δ)} (hnext : ∀ a b, same a b → Concurs next (f a) (g b)) :
    Concurs next (bindFresh x f) (bindFresh y g) := by
  intro base base'
  rw [fst_run_bindFresh, fst_run_bindFresh]
  exact (h base base').bind fun a b hsame => hnext a b hsame _ _

theorem failed {e e' : Error} (hx : ∀ base, (x.run base).1 = .error e)
    (hy : ∀ base, (y.run base).1 = .error e') : Concurs same x y := by
  intro base base'
  rw [hx, hy]
  exact .failed e e'

/-- Computations concur if they always succeed with answers that correspond. -/
theorem answered {P : α → Prop} {Q : β → Prop} (hx : ∀ base, ∃ a, (x.run base).1 = .ok a ∧ P a)
    (hy : ∀ base, ∃ b, (y.run base).1 = .ok b ∧ Q b) (h : ∀ a b, P a → Q b → same a b) :
    Concurs same x y := by
  intro base base'
  obtain ⟨a, ha, hP⟩ := hx base
  obtain ⟨b, hb, hQ⟩ := hy base'
  rw [ha, hb]
  exact .answered (h a b hP hQ)

theorem with_ok (h : Concurs same x y) :
    Concurs (fun a b => same a b ∧ (∃ base nextId, x.run base = (.ok a, nextId)) ∧
      ∃ base nextId, y.run base = (.ok b, nextId)) x y := by
  intro base base'
  refine (h base base').with_ok.mono ?_
  rintro a b ⟨hsame, ha, hb⟩
  exact ⟨hsame, ⟨base, _, Prod.ext ha rfl⟩, base', _, Prod.ext hb rfl⟩

end Concurs

end

/-! What becomes of automata. -/

section

variable {tree tree' : SyntaxTree} {a b : Automaton}

/-- Simplifying a trim automaton succeeds, if it is asked for. -/
theorem exists_simplify_of_trim {i : Nat} (h : a.Trim i) (tree : SyntaxTree) (base : UInt32) :
    ∃ c, ((simplify tree .default a).run base).1 = .ok c ∧ ∃ j, c.Trim j ∧ a.FindsAlike i c j := by
  unfold simplify
  split
  · obtain ⟨c, j, hrun, htrim, hfinds⟩ := h.optimize base
    refine ⟨c, ?_, j, htrim, hfinds⟩
    have hresult : a.optimize.run base = ((.ok (), c), (a.optimize.run base).2) := Prod.ext hrun rfl
    rw [StateT.run_bind, hresult]
    rfl
  · exact ⟨a, rfl, i, h, fun _ _ _ hgives => hgives⟩

/-- Simplifying a deterministic automaton succeeds, if it is asked for. -/
theorem exists_simplify_of_determines (h : Determines a b) (hbare : b.IsBare) (tree : SyntaxTree)
    (base : UInt32) :
    ∃ c, ((simplify tree .default b).run base).1 = .ok c ∧ Determines a c ∧ c.IsBare := by
  unfold simplify
  split
  · obtain ⟨c, nextId, hrun, hdetermines⟩ := h.exists_optimize base
    refine ⟨c, ?_, hdetermines, hbare.optimize hrun⟩
    rw [StateT.run_bind, hrun]
    rfl
  · exact ⟨b, rfl, h, hbare⟩

/-- Where nothing is made deterministic, both automata are at most simplified. -/
theorem concurs_simplify {i j : Nat} (ha : a.Trim i) (hb : b.Trim j) (hfinds : a.FindsAlike i b j)
    (hgives : ∀ (search : Search) (start : Nat), start ≤ search.input.size →
      ∃ A, a.code.Gives search (a.firstWay i start) A) :
    Concurs SearchedAlike (simplify tree' .default a) (simplify tree .default b) := by
  refine .answered (exists_simplify_of_trim ha tree') (exists_simplify_of_trim hb tree) ?_
  rintro c d ⟨k, hc, hfirst⟩ ⟨l, hd, hsecond⟩
  refine .trim hc hd fun search start hstart => ?_
  obtain ⟨A, hA⟩ := hgives search start hstart
  exact ⟨A, hfirst search start A hA, hsecond search start A (hfinds search start A hA)⟩

/-- Where deterministic automata are made, both are minimized, and then at most simplified. -/
theorem concurs_minimalDfa (h : a.IsLed b) (hwf : a.WellFormed) :
    Concurs SearchedAlike
      (bindFresh (minimalDfa a defaultMaxStates) (simplify tree' .default))
      (bindFresh (minimalDfa b defaultMaxStates) (simplify tree .default)) := by
  have hminimal : Concurs (fun x y => (Determines a x ∧ x.IsBare) ∧ Determines a y ∧ y.IsBare)
      (minimalDfa a defaultMaxStates) (minimalDfa b defaultMaxStates) := by
    refine .bindFresh (fun base base' => h.concur_toDfaWithLimit hwf (by decide) base base') ?_
    rintro x y ⟨hx, hy⟩
    have hleast {z : Automaton} (hz : Determines a z) (base : UInt32) :
        ∃ least, (z.minimize.run base).1 = .ok least ∧ Determines a least ∧ least.IsBare := by
      obtain ⟨least, nextId, hrun, hdetermines⟩ := hz.exists_minimize base
      exact ⟨least, congrArg Prod.fst hrun, hdetermines, (minimize_ok hrun).1⟩
    exact .answered (hleast hx) (hleast hy) fun _ _ => .intro
  refine hminimal.bindFresh ?_
  rintro x y ⟨⟨hx, hbare⟩, hy, hbare'⟩
  exact .answered (exists_simplify_of_determines hx hbare tree')
    (exists_simplify_of_determines hy hbare' tree)
    fun c d ⟨hc, hbare⟩ ⟨hd, hbare'⟩ => .deterministic hc hd hbare hbare'

end

/-! Patterns. -/

/-- Patterns with the same groups whose attempts agree. -/
structure FindsSame (p q : Pattern) : Prop where
  groupNames_eq : p.groupNames = q.groupNames
  anchored_eq : p.automaton.flags.contains .anchored = q.automaton.flags.contains .anchored
  attempts : ∀ s s' : Search, s.Matches s' → ∀ start ≤ s.input.size,
    Agrees (p.automaton.attempt s start) (q.automaton.attempt s' start)

theorem FindsSame.agrees {p q : Pattern} (h : FindsSame p q) : p.searcher.Agrees q.searcher where
  toMatch_eq := by
    funext start found
    simp only [Searcher.toMatch, searcher, groupCount, h.groupNames_eq]
  anchored_eq := h.anchored_eq
  attempts := h.attempts
  scope _ := scope_of_scaledLimits
  scope' _ := scope_of_scaledLimits

theorem bindFresh_assoc {α β γ : Type} (x : Fresh (Except Error α)) (f : α → Fresh (Except Error β))
    (g : β → Fresh (Except Error γ)) :
    bindFresh x (fun a => bindFresh (f a) g) = bindFresh (bindFresh x f) g := by
  refine funext fun base => ?_
  change (bindFresh x _).run base = (bindFresh (bindFresh x f) g).run base
  simp only [run_bindFresh]
  rcases x.run base with ⟨e | a, nextId⟩ <;> rfl

section

variable {letters : List Char} {more : Flags} {tree tree' : SyntaxTree}

/-- No letter of options stands for this flag. -/
theorem contains_eq_of_led {other : Flags} (hletters : ∀ c ∈ letters, c ∈ inlineLetters)
    (hmore : Flags.ofLetters letters = .ok more) (hled : tree.Led (.switchingOn letters) more tree')
    (hother : other ∈ wholeFlags) :
    tree'.flags.contains other = tree.flags.contains other := by
  rw [hled.flags, contains_union_inline hletters hmore hother]

theorem flags_switchingOn (hmore : Flags.ofLetters letters = .ok more) :
    (OptionSet.switchingOn letters).flags = .ok (more, .empty) := by
  unfold OptionSet.flags OptionSet.switchingOn
  rw [String.toList_ofList, hmore]
  rfl

theorem apply_switchingOn (hmore : Flags.ofLetters letters = .ok more) (flags : Flags) :
    (OptionSet.switchingOn letters).apply flags = flags.union more := by
  unfold OptionSet.apply
  rw [flags_switchingOn hmore]
  exact Flags.without_empty _

/-- What becomes of the automata concurs, whether or not they are made deterministic. -/
theorem concurs_made {a b : Automaton} {i j : Nat}
    (hflag : tree'.flags.contains .deterministic = tree.flags.contains .deterministic)
    (hgroups : tree'.groups = tree.groups) (h : a.IsLed b) (ha : a.Trim i) (hb : b.Trim j)
    (hgives : ∀ (search : Search) (start : Nat), start ≤ search.input.size →
      ∃ A, a.code.Gives search (a.firstWay i start) A) :
    Concurs SearchedAlike
      (bindFresh (makeDeterministic tree' .default a) (simplify tree' .default))
      (bindFresh (makeDeterministic tree .default b) (simplify tree .default)) := by
  cases hdeterministic : tree.flags.contains .deterministic with
  | false =>
    intro base base'
    rw [run_bindFresh_of_ok (run_makeDeterministic (hflag.trans hdeterministic) a base),
      run_bindFresh_of_ok (run_makeDeterministic hdeterministic b base')]
    exact concurs_simplify ha hb (h.findsAlike ha.wellFormed ha.initial_eq hb.initial_eq) hgives _ _
  | true =>
    -- Groups stand in the way in both trees or in none.
    have hcount : tree'.groupCount = tree.groupCount := congrArg List.length hgroups
    unfold makeDeterministic
    rw [hflag, hdeterministic, if_pos rfl, if_pos rfl, hcount]
    split
    · exact .bindFresh (.failed (fun _ => rfl) fun _ => rfl) fun _ _ (h : False) => h.elim
    · exact concurs_minimalDfa h ha.wellFormed

/-- Trees that differ in options in front can both be compiled, or none of them can, unless one of
them is too large. -/
theorem concurs_ofTree (hletters : ∀ c ∈ letters, c ∈ inlineLetters)
    (hmore : Flags.ofLetters letters = .ok more) (hled : tree.Led (.switchingOn letters) more tree')
    (hoffers : tree.root.AlwaysOffers) (hoffers' : tree'.root.AlwaysOffers) :
    Concurs FindsSame (ofTree tree' .default) (ofTree tree .default) := by
  have hcheck : check tree' .default = check tree .default := by
    have hcount : tree'.groupCount = tree.groupCount := congrArg List.length hled.groups
    unfold check
    rw [hcount, hled.validate_eq (flags_switchingOn hmore)
      (contains_eq_of_led hletters hmore hled (by simp [wholeFlags]))]
  unfold ofTree
  rw [hcheck]
  cases check tree .default with
  | error e => exact .failed (fun _ => rfl) fun _ => rfl
  | ok _ =>
    dsimp only
    have hbuilt : Concurs IsLed (Automaton.ofTree tree' defaultMaxStates)
        (Automaton.ofTree tree defaultMaxStates) :=
      concur_ofTree hled (apply_switchingOn hmore) defaultMaxStates
    refine hbuilt.with_ok.bindFresh ?_
    rintro a b ⟨h, ⟨base, nextId, ha⟩, base', nextId', hb⟩
    obtain ⟨i, htrim⟩ := ofTree_trim hoffers' (by decide) ha
    obtain ⟨j, htrim'⟩ := ofTree_trim hoffers (by decide) hb
    have hflag : tree'.flags.contains .deterministic = tree.flags.contains .deterministic :=
      contains_eq_of_led hletters hmore hled (by simp [wholeFlags])
    have hmade := concurs_made hflag hled.groups h htrim htrim' fun search start hstart =>
      (ofTree_nestsWithin ha).exists_gives htrim.wellFormed.inside htrim.initial_eq search hstart
    rw [bindFresh_assoc, bindFresh_assoc]
    refine hmade.bindFresh fun c d hcd base base' => .answered ⟨hled.groups, ?_, ?_⟩
    · exact contains_eq_of_led hletters hmore hled (by simp [wholeFlags])
    · exact fun s s' hs start hstart => hcd.attempts_agree _ _ hs hstart

end

theorem fst_run_ofText (source : String) (flags : Flags) (config : Config) (base : UInt32) :
    ((ofText source flags config).run base).1 =
      checkText source config >>= fun _ =>
        SyntaxTree.parse source.toList flags config.maxNesting >>= fun tree =>
          ((bindFresh (ofTree tree config) fun p => pure (.ok { p with
            source := some source, flags := flags, id := .ofText source flags })).run base).1 := by
  unfold ofText
  cases checkText source config with
  | error e => rfl
  | ok _ => cases SyntaxTree.parse source.toList flags config.maxNesting <;> rfl

/-- Where raw literals may be written, a text is refused only if it is too long. -/
theorem concur_checkText (source source' : String) :
    Concur (fun _ _ => True) (checkText source .default) (checkText source' .default) := by
  have hcheck (text : String) : TooLarge (checkText text .default) ∨
      checkText text .default = .ok () := by
    unfold checkText
    dsimp only
    split
    · exact .inl (.inl rfl)
    · exact .inr rfl
  rcases hcheck source with hlarge | hok
  · exact .large hlarge
  · rcases hcheck source' with hlarge | hok'
    · exact .large' hlarge
    · rw [hok, hok']
      exact .answered trivial

/-- Options in front of a text are the same as flags that are asked for. Whatever text follows them,
unless it is a raw literal, and whatever flags they stand for, if no errors are to be passed over:
unless one of the patterns is too large, it can be compiled with the options in front exactly if it
can be compiled with their flags. Both patterns find the same matches with the same groups, in every
input, from every cursor and in every region, by either way of searching, however many matches are
asked for, and from whatever numbers their states were counted. Only where a bound stops one of the
searches nothing is said. -/
theorem leading_options_are_flags {letters source : String} {flags more : Flags}
    (hne : letters ≠ "") (hletters : ∀ c ∈ letters.toList, c ∈ inlineLetters)
    (hmore : Flags.ofLetters letters.toList = .ok more)
    (hraw : RawLiteral.isRaw source.toList = false) (hrecovery : flags.contains .recovery = false)
    (base base' : UInt32) :
    (¬TooLarge ((ofText ("(?" ++ letters ++ ")" ++ source) flags .default).run base).1 →
      ¬TooLarge ((ofText source (flags.union more) .default).run base').1 →
        ((ofText ("(?" ++ letters ++ ")" ++ source) flags .default).run base).1.isOk =
          ((ofText source (flags.union more) .default).run base').1.isOk) ∧
    ∀ p q, ((ofText ("(?" ++ letters ++ ")" ++ source) flags .default).run base).1 = .ok p →
      ((ofText source (flags.union more) .default).run base').1 = .ok q →
        ∀ (ctx ctx' : Context) (most : Nat), ctx.Matches ctx' → ctx.RegionInside →
          ¬StoppedAtLimit (ctx.findAll p.searcher most).1 →
            ¬StoppedAtLimit (ctx'.findAll q.searcher most).1 →
              ∃ found, (ctx.findAll p.searcher most).1 = .ok found ∧
                (ctx'.findAll q.searcher most).1 = .ok found := by
  have hconcur : Concur FindsSame
      ((ofText ("(?" ++ letters ++ ")" ++ source) flags .default).run base).1
      ((ofText source (flags.union more) .default).run base').1 := by
    have hwritten : ("(?" ++ letters ++ ")" ++ source).toList =
        withOptions letters.toList source.toList := by
      simp [withOptions]
    rw [fst_run_ofText, fst_run_ofText, hwritten]
    refine (concur_checkText _ source).bind fun _ _ _ => ?_
    have hread := SyntaxTree.concur_parse Config.default.maxNesting (by simpa using hne) hletters
      hmore hraw hrecovery
    refine hread.with_ok.bind ?_
    rintro tree' tree ⟨hled, hparse', hparse⟩
    have hcompiled := concurs_ofTree hletters hmore hled (SyntaxTree.alwaysOffers_parse hparse)
      (SyntaxTree.alwaysOffers_parse hparse')
    refine hcompiled.bindFresh (fun p q hsame _ _ => .answered ?_) base base'
    exact ⟨hsame.groupNames_eq, hsame.anchored_eq, hsame.attempts⟩
  refine ⟨hconcur.isOk_eq, fun p q hp hq ctx ctx' most hctx hregion hlimit hlimit' => ?_⟩
  rw [hp, hq] at hconcur
  exact ctx.findAll_eq_of_agrees hconcur.same_of_ok.agrees hctx hregion most hlimit hlimit'

/-- A context for a capital letter and a small one. -/
private def capitalFirst (depth transitions : Nat) : Context :=
  (Context.new ⟨depth, 0, transitions⟩ 0).setInput #['A', 'b']

theorem leading_options_are_flags_extended :
    ∃ p q, ((ofText "(?ix)( a ) | b" .empty .default).run 0).1 = .ok p ∧
      ((ofText "( a ) | b" (.union .nocase .extended) .default).run 9).1 = .ok q ∧
        ((ofText "(?ix)( a ) | b" .empty .default).run 0).1.isOk =
          ((ofText "( a ) | b" (.union .nocase .extended) .default).run 9).1.isOk ∧
        ∃ found, ((capitalFirst 100 1000).findAll p.searcher 0).1 = .ok found ∧
          ((capitalFirst 50 0).findAll q.searcher 0).1 = .ok found := by
  have hfirst : (((ofText "(?ix)( a ) | b" .empty .default).run 0).1.toOption.map fun p =>
      ((capitalFirst 100 1000).findAll p.searcher 0).1.isOk) = some true := by
    decide +kernel
  have hsecond : (((ofText "( a ) | b" (.union .nocase .extended) .default).run 9).1.toOption.map
      fun q => ((capitalFirst 50 0).findAll q.searcher 0).1.isOk) = some true := by
    decide +kernel
  obtain ⟨hsame, hfinds⟩ := @leading_options_are_flags "ix" "( a ) | b" .empty
    (.union .nocase .extended) (by decide) (by simp [inlineLetters]) rfl rfl (by decide) 0 9
  cases hp : ((ofText "(?ix)( a ) | b" .empty .default).run 0).1 with
  | error e =>
    rw [hp] at hfirst
    cases hfirst
  | ok p =>
    cases hq : ((ofText "( a ) | b" (.union .nocase .extended) .default).run 9).1 with
    | error e =>
      rw [hq] at hsecond
      cases hsecond
    | ok q =>
      rw [hp] at hfirst
      rw [hq] at hsecond
      have hboth : ((ofText "(?ix)( a ) | b" .empty .default).run 0).1.isOk =
          ((ofText "( a ) | b" (.union .nocase .extended) .default).run 9).1.isOk :=
        hsame (not_tooLarge_of_ok hp) (not_tooLarge_of_ok hq)
      rw [hp, hq] at hboth
      refine ⟨p, q, rfl, rfl, hboth, hfinds p q hp hq _ _ 0 ⟨rfl, rfl, rfl, rfl, rfl⟩
        (Context.regionInside_setInput ..) ?_ ?_⟩
      · exact StoppedAtLimit.of_isOk (Option.some.inj hfirst)
      · exact StoppedAtLimit.of_isOk (Option.some.inj hsecond)

end Pattern

end RegexEngine
