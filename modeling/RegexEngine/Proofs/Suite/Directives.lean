import RegexEngine.Proofs.Suite.Grammar

/-!
How the directives of a suite are resolved. Directives fit together if names are declared once, and
wherever something is said about the last pattern there is one. Exactly then a suite is read:
reading one directive after the other keeps the patterns and the test cases of those that were read.
Names may be declared after they are used, so they are looked up when all directives are known: a
test case is for the pattern that it names, or for the last one before it.
-/

namespace RegexEngine.Suite

/-! Directives. -/

/-- A directive fits behind others that have declared some names. -/
def Directive.Fits (known : List String) : Directive → Prop
  | pattern name _ _ => name ∉ known
  | flags _ => known ≠ []
  | test fields _ => (fields.map (·.name)).Nodup ∧ (∃ text, .input text ∈ fields) ∧
      (known = [] → ∃ name place, .pattern name place ∈ fields)

/-- The test case of some fields, after so many patterns. -/
def openCase (count : Nat) (fields : List Field) (span : Span) : OpenCase :=
  let set := fields.foldl Field.set noFields
  ⟨⟨set.input.getD "", set.expectMatch.getD true, set.groups.getD [], count - 1, span⟩, set.pattern⟩

/-- What a directive does to what was read. -/
def Directive.perform (r : Reading) : Directive → Reading
  | pattern name source span => { r with patterns := r.patterns ++ [⟨name, source, [], span⟩] }
  | flags names => { r with patterns := addFlags names r.patterns }
  | test fields span => { r with cases := r.cases ++ [openCase r.patterns.length fields span] }

section

variable {word : SuiteToken} {r r' : Reading}

/-- After its word, a reader reads a directive that fits. -/
def ReadsAfter (word : SuiteToken) (r r' : Reading) : Prop :=
  ∃ (d : Directive) (taken rest : List SuiteToken), d.Spells (word :: taken) ∧
    d.Fits (r.patterns.map (·.name)) ∧ r.tokens = taken ++ rest ∧
      r' = d.perform { r with tokens := rest }

theorem expect_eq_ok {kind : SuiteTokenKind} {t : SuiteToken} :
    (expect kind).run r = .ok (t, r') ↔
      ∃ rest, t.kind = kind ∧ r.tokens = t :: rest ∧ r' = { r with tokens := rest } := by
  rw [takesAt_expect kind t r']
  constructor
  · rintro ⟨_, rest, ⟨t, rfl, hkind, rfl⟩, htokens, rfl⟩
    exact ⟨rest, hkind, htokens, rfl⟩
  · rintro ⟨rest, hkind, htokens, rfl⟩
    exact ⟨[t], rest, ⟨t, rfl, hkind, rfl⟩, htokens, rfl⟩

theorem get_eq_ok {s : Reading} : (get : Read Reading).run r = .ok (s, r') ↔ s = r ∧ r' = r := by
  change Except.ok (r, r) = _ ↔ _
  simp [eq_comm]

theorem modify_eq_ok {change : Reading → Reading} :
    (modify change : Read Unit).run r = .ok ((), r') ↔ r' = change r := by
  change Except.ok ((), change r) = _ ↔ _
  simp [eq_comm]

/-- What is checked holds where a reader goes on. -/
theorem check_eq_ok {α : Type} {c : Prop} [Decidable c] {fault : SuiteFault} {span : Span}
    {f : Unit → Read α} {y : Read α} {v : α} :
    (if c then failAt fault span >>= f else y).run r = .ok (v, r') ↔
      ¬c ∧ y.run r = .ok (v, r') := by
  split
  · rename_i hc
    constructor
    · intro h
      cases h
    · exact fun h => absurd hc h.1
  · rename_i hc
    exact ⟨fun h => ⟨hc, h⟩, fun h => h.2⟩

theorem readPattern_eq_ok (hword : word.kind = .patternWord) :
    (readPattern word.span).run r = .ok ((), r') ↔ ReadsAfter word r r' := by
  unfold readPattern
  simp only [run_bind_eq_ok, expect_eq_ok, get_eq_ok, check_eq_ok, modify_eq_ok]
  constructor
  · rintro ⟨name, _, ⟨_, hname, htokens, rfl⟩, _, _, ⟨rfl, rfl⟩, hnew,
      equal, _, ⟨_, hequal, rfl, rfl⟩, source, _, ⟨rest, hsource, rfl, rfl⟩, rfl⟩
    exact ⟨_, [name, equal, source], rest, .pattern hword hname hequal hsource,
      by simpa [Directive.Fits] using hnew, htokens, rfl⟩
  · rintro ⟨d, taken, rest, hspells, hfits, htokens, rfl⟩
    cases hspells with
    | @pattern _ name _ _ _ hname hequal hsource =>
      have hnew : name.written ∉ r.patterns.map (·.name) := hfits
      exact ⟨_, _, ⟨_, hname, htokens, rfl⟩, _, _, ⟨rfl, rfl⟩, by simpa using hnew,
        _, _, ⟨_, hequal, rfl, rfl⟩, _, _, ⟨rest, hsource, rfl, rfl⟩, rfl⟩
    | flags hother => cases hword.symm.trans hother
    | test hother => cases hword.symm.trans hother

theorem readFlags_eq_ok (hword : word.kind = .flagsWord) :
    (readFlags word.span).run r = .ok ((), r') ↔ ReadsAfter word r r' := by
  unfold readFlags
  simp only [run_bind_eq_ok, expect_eq_ok, get_eq_ok, check_eq_ok, modify_eq_ok,
    takesAt_flagNames _ _ _]
  constructor
  · rintro ⟨_, _, ⟨rfl, rfl⟩, hsome, equal, _, ⟨_, hequal, htokens, rfl⟩, bracket, _,
      ⟨_, hbracket, rfl, rfl⟩, ⟨names, last⟩, _, ⟨items, rest, hitems, rfl, rfl⟩, rfl⟩
    exact ⟨_, equal :: bracket :: items, rest, .flags hword hequal hbracket hitems,
      by simpa [Directive.Fits] using hsome, htokens, rfl⟩
  · rintro ⟨d, taken, rest, hspells, hfits, htokens, rfl⟩
    cases hspells with
    | pattern hother => cases hword.symm.trans hother
    | @flags names _ _ _ last items _ hequal hbracket hitems =>
      have hsome : r.patterns.map (·.name) ≠ [] := hfits
      exact ⟨_, _, ⟨rfl, rfl⟩, by simpa using hsome, _, _, ⟨_, hequal, htokens, rfl⟩,
        _, _, ⟨_, hbracket, rfl, rfl⟩, (names, last), _, ⟨items, rest, hitems, rfl, rfl⟩, rfl⟩
    | test hother => cases hword.symm.trans hother

theorem readCase_eq_ok (hword : word.kind = .caseWord) :
    (readCase word.span).run r = .ok ((), r') ↔ ReadsAfter word r r' := by
  unfold readCase
  simp only [run_bind_eq_ok, expect_eq_ok, get_eq_ok]
  constructor
  · rintro ⟨brace, _, ⟨_, hbrace, htokens, rfl⟩, _, _, ⟨rfl, rfl⟩, _, s, hfields, hend⟩
    obtain ⟨items, rest, ⟨fields, last, hlisted, honce, rfl⟩, rfl, rfl⟩ :=
      (takesAt_readFields _ noFields _ (Nat.lt_succ_self _) _ _).mp hfields
    dsimp only at hend
    split at hend
    · cases hend
    · rename_i text htext
      simp only [run_bind_eq_ok, get_eq_ok, check_eq_ok, modify_eq_ok] at hend
      obtain ⟨_, _, ⟨rfl, rfl⟩, hpattern, rfl⟩ := hend
      refine ⟨_, brace :: items, rest, .test hword hbrace hlisted,
        ⟨setOnce_noFields_iff.mp honce, ⟨text, (heldBy_iff_mem honce _).mp htext⟩, ?_⟩, htokens, ?_⟩
      · intro hnone
        rw [exists_pattern_iff honce, Bool.eq_false_iff]
        exact fun h => hpattern ⟨h, by simpa using hnone⟩
      · simp [Directive.perform, openCase, htext]
  · rintro ⟨d, taken, rest, hspells, hfits, htokens, rfl⟩
    cases hspells with
    | pattern hother => cases hword.symm.trans hother
    | flags hother => cases hword.symm.trans hother
    | @test fields _ brace last items _ hbrace hlisted =>
      obtain ⟨hnodup, ⟨text, htext⟩, hpattern⟩ := hfits
      have honce := setOnce_noFields_iff.mpr hnodup
      have hfields := (takesAt_readFields _ noFields { r with tokens := items ++ rest }
        (Nat.lt_succ_self _) _ _).mpr ⟨items, rest, ⟨fields, last, hlisted, honce, rfl⟩, rfl, rfl⟩
      refine ⟨brace, _, ⟨_, hbrace, htokens, rfl⟩, _, _, ⟨rfl, rfl⟩, _, _, hfields, ?_⟩
      have hset : (fields.foldl Field.set noFields).input = some text :=
        (heldBy_iff_mem honce (.input text)).mpr htext
      dsimp only
      split
      · rename_i hnone
        cases hnone.symm.trans hset
      · rename_i text' htext'
        cases hset.symm.trans htext'
        simp only [run_bind_eq_ok, get_eq_ok, check_eq_ok, modify_eq_ok]
        refine ⟨_, _, ⟨rfl, rfl⟩, ?_, ?_⟩
        · rintro ⟨hnone, hlength⟩
          have hnamed := (exists_pattern_iff honce).mp (hpattern (by simpa using hlength))
          exact absurd hnone (Bool.eq_false_iff.mp hnamed)
        · simp [Directive.perform, openCase, hset]

/-- Before it goes on, the reader of directives reads one that fits. -/
theorem readDirective_eq_ok {after : Unit → Read Unit} {r'' : Reading} :
    (match word.kind with
      | .patternWord => readPattern word.span >>= after
      | .flagsWord => readFlags word.span >>= after
      | .caseWord => readCase word.span >>= after
      | .directive => failAt (.unknownDirective word.written) word.span >>= after
      | _ => failOn word "directive" >>= after).run r = .ok ((), r'') ↔
      ∃ r', ReadsAfter word r r' ∧ (after ()).run r' = .ok ((), r'') := by
  have hreader {x : Read Unit} (hx : ∀ r', x.run r = .ok ((), r') ↔ ReadsAfter word r r') :
      (x >>= after).run r = .ok ((), r'') ↔
        ∃ r', ReadsAfter word r r' ∧ (after ()).run r' = .ok ((), r'') := by
    rw [run_bind_eq_ok]
    simp only [← hx]
    exact ⟨fun ⟨_, r', h⟩ => ⟨r', h⟩, fun ⟨r', h⟩ => ⟨(), r', h⟩⟩
  have hword {r' : Reading} (h : ReadsAfter word r r') :
      word.kind = .patternWord ∨ word.kind = .flagsWord ∨ word.kind = .caseWord := by
    obtain ⟨d, taken, rest, hspells, _⟩ := h
    cases hspells with
    | pattern h => exact .inl h
    | flags h => exact .inr (.inl h)
    | test h => exact .inr (.inr h)
  split
  · rename_i h
    exact hreader fun _ => readPattern_eq_ok h
  · rename_i h
    exact hreader fun _ => readFlags_eq_ok h
  · rename_i h
    exact hreader fun _ => readCase_eq_ok h
  · rename_i h
    refine hreader fun r' => ⟨fun hrun => ?_, fun hreads => ?_⟩
    · cases hrun
    · rw [h] at hword
      exact absurd (hword hreads) (by decide)
  · rename_i hpattern hflags hcase _
    refine hreader fun r' => ⟨fun hrun => ?_, fun hreads => ?_⟩
    · obtain ⟨_, _, h, _⟩ := (takesAt_failOn word _ _ _).mp hrun
      exact h.elim
    · rcases hword hreads with h | h | h
      · exact absurd h hpattern
      · exact absurd h hflags
      · exact absurd h hcase

end

/-- The names that a directive declares. -/
def Directive.declares : Directive → List String
  | pattern name _ _ => [name]
  | _ => []

/-- Directives fit behind others that have declared some names, one after the other. -/
def FitFrom : List String → List Directive → Prop
  | _, [] => True
  | known, d :: rest => d.Fits known ∧ FitFrom (known ++ d.declares) rest

theorem map_name_addFlags (flags : List String) (patterns : List Declaration) :
    (addFlags flags patterns).map (·.name) = patterns.map (·.name) := by
  fun_induction addFlags flags patterns with
  | case1 => rfl
  | case2 p => rfl
  | case3 p rest _ ih => rw [List.map_cons, ih, List.map_cons]

theorem map_name_perform (r : Reading) (d : Directive) :
    (Directive.perform r d).patterns.map (·.name) = r.patterns.map (·.name) ++ d.declares := by
  cases d with
  | pattern name source span => simp [Directive.perform, Directive.declares]
  | flags names => simp [Directive.perform, Directive.declares, map_name_addFlags]
  | test fields span => simp [Directive.perform, Directive.declares]

theorem perform_withTokens (d : Directive) (r : Reading) (tokens : List SuiteToken) :
    Directive.perform { r with tokens := tokens } d =
      { Directive.perform r d with tokens := tokens } := by
  cases d <;> rfl

theorem tokens_perform (r : Reading) (d : Directive) :
    (Directive.perform r d).tokens = r.tokens := by
  cases d <;> rfl

theorem foldl_perform_withTokens (ds : List Directive) (tokens : List SuiteToken) :
    ∀ r : Reading, ds.foldl Directive.perform { r with tokens := tokens } =
      { ds.foldl Directive.perform r with tokens := tokens } := by
  induction ds with
  | nil => exact fun _ => rfl
  | cons d rest ih =>
    intro r
    rw [List.foldl_cons, perform_withTokens, ih, List.foldl_cons]

theorem readDirectives_eq_ok (fuel : Nat) : ∀ {r r' : Reading}, r.tokens.length ≤ fuel →
    ((readDirectives fuel).run r = .ok ((), r') ↔ ∃ ds, Written ds r.tokens ∧
      FitFrom (r.patterns.map (·.name)) ds ∧
        r' = { ds.foldl Directive.perform r with tokens := [] }) := by
  have hend (r r' : Reading) (hnil : r.tokens = []) : r' = r ↔ ∃ ds, Written ds r.tokens ∧
      FitFrom (r.patterns.map (·.name)) ds ∧
        r' = { ds.foldl Directive.perform r with tokens := [] } := by
    obtain ⟨tokens, stop, patterns, cases⟩ := r
    cases hnil
    simp [written_nil_iff, FitFrom]
  induction fuel with
  | zero =>
    intro r r' hlength
    rw [← hend r r' (List.eq_nil_of_length_eq_zero (Nat.le_zero.mp hlength))]
    change Except.ok ((), r) = _ ↔ _
    simp [eq_comm]
  | succ fuel ih =>
    intro r r' hlength
    obtain ⟨tokens, stop, patterns, cases⟩ := r
    cases tokens with
    | nil =>
      rw [← hend _ r' rfl]
      change Except.ok ((), _) = _ ↔ _
      simp [eq_comm]
    | cons t tokens =>
      have hnext : next?.run ⟨t :: tokens, stop, patterns, cases⟩ =
          .ok (some t, ⟨tokens, stop, patterns, cases⟩) := rfl
      have hlength' (d : Directive) (taken rest : List SuiteToken)
          (htokens : tokens = taken ++ rest) :
          (Directive.perform ⟨rest, stop, patterns, cases⟩ d).tokens.length ≤ fuel := by
        rw [tokens_perform]
        simp only [htokens, List.length_cons, List.length_append] at hlength
        dsimp only
        omega
      -- Directives do not look at the tokens that are left, so these can be exchanged at the end.
      have hsame (d : Directive) (ds : List Directive) (rest : List SuiteToken) :
          { (d :: ds).foldl Directive.perform ⟨rest, stop, patterns, cases⟩ with tokens := [] } =
            { (d :: ds).foldl Directive.perform ⟨t :: tokens, stop, patterns, cases⟩ with
              tokens := [] } := by
        rw [show (⟨rest, stop, patterns, cases⟩ : Reading) =
            { (⟨t :: tokens, stop, patterns, cases⟩ : Reading) with tokens := rest } from rfl,
          foldl_perform_withTokens]
      unfold readDirectives
      rw [run_bind_of_ok hnext]
      refine readDirective_eq_ok.trans ?_
      simp only [written_cons_iff]
      constructor
      · rintro ⟨_, ⟨d, taken, rest, hspells, hfits, htokens, rfl⟩, hrun⟩
        obtain ⟨ds, hwritten, hfit, rfl⟩ := (ih (hlength' d taken rest htokens)).mp hrun
        rw [tokens_perform] at hwritten
        rw [map_name_perform] at hfit
        exact ⟨d :: ds, ⟨d, ds, taken, rest, hspells, htokens, rfl, hwritten⟩, ⟨hfits, hfit⟩,
          hsame d ds rest⟩
      · rintro ⟨_, ⟨d, ds, taken, others, hspells, htokens, rfl, hwritten⟩, ⟨hfits, hfit⟩, rfl⟩
        refine ⟨_, ⟨d, taken, others, hspells, hfits, htokens, rfl⟩,
          (ih (hlength' d taken others htokens)).mpr ⟨ds, ?_, ?_, ?_⟩⟩
        · rwa [tokens_perform]
        · rwa [map_name_perform]
        · exact (hsame d ds others).symm

/-! What directives say. -/

/-- True for the directive of a pattern. -/
def Directive.isPattern : Directive → Bool
  | pattern _ _ _ => true
  | _ => false

/-- True for a test case. -/
def Directive.isTest : Directive → Bool
  | test _ _ => true
  | _ => false

/-- The names of flags in a directive. -/
def Directive.flagNames : Directive → List String
  | flags names => names
  | _ => []

/-- The names of flags in the directives up to the next pattern. -/
def flagsAfter (ds : List Directive) : List String :=
  (ds.takeWhile (!·.isPattern)).flatMap (·.flagNames)

/-- All names that are declared. -/
def declaredNames (ds : List Directive) : List String := ds.flatMap (·.declares)

/-- The patterns of directives. -/
def declared : List Directive → List Declaration
  | [] => []
  | .pattern name source span :: rest => ⟨name, source, flagsAfter rest, span⟩ :: declared rest
  | .flags _ :: rest | .test _ _ :: rest => declared rest

/-- The test cases of directives, after so many patterns. -/
def opened : Nat → List Directive → List OpenCase
  | _, [] => []
  | count, .pattern _ _ _ :: rest => opened (count + 1) rest
  | count, .flags _ :: rest => opened count rest
  | count, .test fields span :: rest => openCase count fields span :: opened count rest

theorem addFlags_nil (patterns : List Declaration) : addFlags [] patterns = patterns := by
  fun_induction addFlags [] patterns with
  | case1 => rfl
  | case2 p => simp
  | case3 p rest _ ih => rw [ih]

theorem addFlags_append (flags : List String) (patterns : List Declaration) (p : Declaration) :
    addFlags flags (patterns ++ [p]) = patterns ++ [{ p with flags := p.flags ++ flags }] := by
  induction patterns with
  | nil => rfl
  | cons first rest ih =>
    rw [List.cons_append, addFlags, ih, List.cons_append]
    simp

theorem addFlags_addFlags (flags more : List String) (patterns : List Declaration) :
    addFlags more (addFlags flags patterns) = addFlags (flags ++ more) patterns := by
  rcases List.eq_nil_or_concat patterns with rfl | ⟨others, p, rfl⟩
  · rfl
  · simp [addFlags_append]

theorem length_addFlags (flags : List String) (patterns : List Declaration) :
    (addFlags flags patterns).length = patterns.length := by
  simpa using congrArg List.length (map_name_addFlags flags patterns)

/-- The last pattern that was there gets the flags up to the next one. -/
theorem patterns_foldl_perform (ds : List Directive) : ∀ r : Reading,
    (ds.foldl Directive.perform r).patterns =
      addFlags (flagsAfter ds) r.patterns ++ declared ds := by
  induction ds with
  | nil => exact fun r => by simp [flagsAfter, addFlags_nil, declared]
  | cons d rest ih =>
    intro r
    rw [List.foldl_cons, ih]
    cases d with
    | pattern name source span =>
      simp [Directive.perform, addFlags_append, declared, flagsAfter, Directive.isPattern,
        addFlags_nil]
    | flags names =>
      simp [Directive.perform, addFlags_addFlags, declared, flagsAfter, Directive.isPattern,
        Directive.flagNames]
    | test fields span =>
      simp [Directive.perform, declared, flagsAfter, Directive.isPattern, Directive.flagNames]

theorem cases_foldl_perform (ds : List Directive) : ∀ r : Reading,
    (ds.foldl Directive.perform r).cases = r.cases ++ opened r.patterns.length ds := by
  induction ds with
  | nil => exact fun r => by simp [opened]
  | cons d rest ih =>
    intro r
    rw [List.foldl_cons, ih]
    cases d <;> simp [Directive.perform, opened, length_addFlags]

/-- A suite is read if its directives fit and the names in its test cases can be looked up. -/
theorem ofTokens_eq_ok {tokens : List SuiteToken} {stop : Nat} {suite : Suite} :
    ofTokens tokens stop = .ok suite ↔ ∃ ds, Written ds tokens ∧ FitFrom [] ds ∧
      suite.patterns = declared ds ∧
        List.Forall₂ (fun c c' => close (declared ds) c = .ok c') (opened 0 ds) suite.cases := by
  have hreads {r' : Reading} : (readDirectives tokens.length).run ⟨tokens, stop, [], []⟩ =
      .ok ((), r') ↔ _ := readDirectives_eq_ok _ (Nat.le_refl _)
  unfold ofTokens
  rw [bind_eq_ok]
  constructor
  · rintro ⟨⟨_, r⟩, hrun, h⟩
    obtain ⟨ds, hwritten, hfit, rfl⟩ := hreads.mp hrun
    obtain ⟨cases, hcases, h⟩ := bind_eq_ok.mp h
    cases h
    rw [mapM_eq_ok] at hcases
    simp only [patterns_foldl_perform, cases_foldl_perform, addFlags, List.nil_append,
      List.length_nil] at hcases ⊢
    exact ⟨ds, hwritten, hfit, rfl, hcases⟩
  · rintro ⟨ds, hwritten, hfit, hpatterns, hcases⟩
    refine ⟨_, hreads.mpr ⟨ds, hwritten, hfit, rfl⟩,
      bind_eq_ok.mpr ⟨suite.cases, mapM_eq_ok.mpr ?_, ?_⟩⟩
    · simpa only [patterns_foldl_perform, cases_foldl_perform, addFlags, List.nil_append,
        List.length_nil] using hcases
    · simp only [patterns_foldl_perform, addFlags, List.nil_append]
      rw [← hpatterns]
      rfl

/-! What has to hold of directives. -/

/-- Directives that fit together. -/
structure Sound (ds : List Directive) : Prop where
  names_nodup : (declaredNames ds).Nodup
  flags_after : ∀ before names after, ds = before ++ .flags names :: after →
    ∃ d ∈ before, d.isPattern = true
  test_after : ∀ before fields span after, ds = before ++ .test fields span :: after →
    (∀ name place, .pattern name place ∉ fields) → ∃ d ∈ before, d.isPattern = true
  names_declared : ∀ fields span name place, .test fields span ∈ ds →
    .pattern name place ∈ fields → name ∈ declaredNames ds
  input : ∀ fields span, .test fields span ∈ ds → ∃ text, .input text ∈ fields
  fields_nodup : ∀ fields span, .test fields span ∈ ds → (fields.map (·.name)).Nodup

theorem declaredNames_eq_nil_iff {ds : List Directive} :
    declaredNames ds = [] ↔ ∀ d ∈ ds, d.isPattern = false := by
  unfold declaredNames
  rw [List.flatMap_eq_nil_iff]
  refine forall₂_congr fun d _ => ?_
  cases d <;> simp [Directive.declares, Directive.isPattern]

theorem declaredNames_ne_nil_iff {ds : List Directive} :
    declaredNames ds ≠ [] ↔ ∃ d ∈ ds, d.isPattern = true := by
  rw [Ne, declaredNames_eq_nil_iff]
  simp

/-- Directives fit one after the other if each fits behind those before it. -/
theorem fitFrom_iff {ds : List Directive} : ∀ {known : List String}, FitFrom known ds ↔
    ∀ before d after, ds = before ++ d :: after → d.Fits (known ++ declaredNames before) := by
  induction ds with
  | nil => simp [FitFrom]
  | cons first rest ih =>
    intro known
    rw [FitFrom, ih]
    constructor
    · rintro ⟨hfirst, hrest⟩ before d after heq
      cases before with
      | nil =>
        cases heq
        rwa [declaredNames, List.flatMap_nil, List.append_nil]
      | cons d' before =>
        cases heq
        have hfits := hrest before d after rfl
        rwa [List.append_assoc] at hfits
    · intro h
      refine ⟨?_, fun before d after heq => ?_⟩
      · have hfits := h [] first rest rfl
        rwa [declaredNames, List.flatMap_nil, List.append_nil] at hfits
      · rw [List.append_assoc]
        exact h (first :: before) d after (by rw [heq]; rfl)

theorem FitFrom.nodup {ds : List Directive} : ∀ {known : List String}, FitFrom known ds →
    known.Nodup → (known ++ declaredNames ds).Nodup := by
  induction ds with
  | nil =>
    intro known _ hknown
    simpa [declaredNames] using hknown
  | cons d rest ih =>
    rintro known ⟨hfits, hrest⟩ hknown
    have hmore : (known ++ d.declares).Nodup := by
      cases d with
      | pattern name source span =>
        simp only [Directive.declares, List.nodup_append, List.mem_singleton]
        refine ⟨hknown, by simp, fun a ha b hb => ?_⟩
        rintro rfl
        exact hfits (hb ▸ ha)
      | _ => simpa [Directive.declares] using hknown
    have hall := ih hrest hmore
    rwa [List.append_assoc] at hall

theorem declaredNames_append (ds es : List Directive) :
    declaredNames (ds ++ es) = declaredNames ds ++ declaredNames es :=
  List.flatMap_append

theorem sound_iff {ds : List Directive} : Sound ds ↔ FitFrom [] ds ∧
    ∀ fields span name place, .test fields span ∈ ds → .pattern name place ∈ fields →
      name ∈ declaredNames ds := by
  constructor
  · intro h
    refine ⟨fitFrom_iff.mpr fun before d after heq => ?_, h.names_declared⟩
    rw [List.nil_append]
    cases d with
    | pattern name source span =>
      intro hmem
      have hnodup := h.names_nodup
      rw [heq, declaredNames_append, List.nodup_append] at hnodup
      exact hnodup.2.2 name hmem name (by simp [declaredNames, Directive.declares]) rfl
    | flags names => exact declaredNames_ne_nil_iff.mpr (h.flags_after before names after heq)
    | test fields span =>
      have hmem : .test fields span ∈ ds := by simp [heq]
      refine ⟨h.fields_nodup fields span hmem, h.input fields span hmem, fun hnone => ?_⟩
      by_contra hunnamed
      simp only [not_exists] at hunnamed
      exact declaredNames_ne_nil_iff.mpr (h.test_after before fields span after heq hunnamed) hnone
  · rintro ⟨hfit, hdeclared⟩
    have hfits (before : List Directive) (d : Directive) (after : List Directive)
        (heq : ds = before ++ d :: after) : d.Fits (declaredNames before) :=
      fitFrom_iff.mp hfit before d after heq
    have htest (fields : List Field) (span : Span) (hmem : .test fields span ∈ ds) :
        (fields.map (·.name)).Nodup ∧ ∃ text, .input text ∈ fields := by
      obtain ⟨before, after, heq⟩ := List.append_of_mem hmem
      have h := hfits before _ after heq
      exact ⟨h.1, h.2.1⟩
    refine ⟨hfit.nodup .nil, fun before names after heq => ?_,
      fun before fields span after heq hno => ?_, hdeclared,
      fun fields span hmem => (htest fields span hmem).2,
      fun fields span hmem => (htest fields span hmem).1⟩
    · exact declaredNames_ne_nil_iff.mp (hfits before _ after heq)
    · refine declaredNames_ne_nil_iff.mp fun hnone => ?_
      obtain ⟨name, place, hmem⟩ := (hfits before _ after heq).2.2 hnone
      exact hno name place hmem

/-! How directives are resolved. -/

/-- A test case has what its fields say, and the usual where they say nothing. -/
structure Says (fields : List Field) (c : TestCase) : Prop where
  input : .input c.input ∈ fields
  expectMatch : .expectMatch c.expectMatch ∈ fields ∨
    c.expectMatch = true ∧ ∀ expected, .expectMatch expected ∉ fields
  groups : .groups c.groups ∈ fields ∨ c.groups = [] ∧ ∀ texts, .groups texts ∉ fields

/-- A suite is what its directives say: patterns and test cases stand in the order of their
directives, patterns have the flags that stand before the next one, and test cases are for the
pattern that they name, or for the last one before them. -/
structure Resolves (ds : List Directive) (suite : Suite) : Prop where
  names_nodup : (suite.patterns.map (·.name)).Nodup
  length_patterns : suite.patterns.length = ds.countP (·.isPattern)
  length_cases : suite.cases.length = ds.countP (·.isTest)
  pattern : ∀ before name source span after, ds = before ++ .pattern name source span :: after →
    suite.patterns[before.countP (·.isPattern)]? =
      some ⟨name, source, (after.takeWhile (!·.isPattern)).flatMap (·.flagNames), span⟩
  test : ∀ before fields span after, ds = before ++ .test fields span :: after →
    ∃ c, suite.cases[before.countP (·.isTest)]? = some c ∧ Says fields c ∧ c.span = span ∧
      c.pattern < suite.patterns.length ∧
        (∀ name place, .pattern name place ∈ fields →
          suite.patterns[c.pattern]?.map (·.name) = some name) ∧
        ((∀ name place, .pattern name place ∉ fields) →
          c.pattern + 1 = before.countP (·.isPattern))

theorem map_name_declared (ds : List Directive) :
    (declared ds).map (·.name) = declaredNames ds := by
  induction ds with
  | nil => rfl
  | cons d rest ih =>
    cases d <;> simp [declared, declaredNames, Directive.declares, ih]

theorem length_declared (ds : List Directive) :
    (declared ds).length = ds.countP (·.isPattern) := by
  induction ds with
  | nil => rfl
  | cons d rest ih => cases d <;> simp [declared, Directive.isPattern, ih]

theorem length_opened (ds : List Directive) (count : Nat) :
    (opened count ds).length = ds.countP (·.isTest) := by
  induction ds generalizing count with
  | nil => rfl
  | cons d rest ih => cases d <;> simp [opened, Directive.isTest, ih]

theorem getElem?_declared (name source : String) (span : Span) (after before : List Directive) :
    (declared (before ++ .pattern name source span :: after))[before.countP (·.isPattern)]? =
      some ⟨name, source, flagsAfter after, span⟩ := by
  induction before with
  | nil => rfl
  | cons d rest ih => cases d <;> simpa [declared, Directive.isPattern] using ih

theorem getElem?_opened (fields : List Field) (span : Span) (after before : List Directive)
    (count : Nat) :
    (opened count (before ++ .test fields span :: after))[before.countP (·.isTest)]? =
      some (openCase (count + before.countP (·.isPattern)) fields span) := by
  induction before generalizing count with
  | nil => rfl
  | cons d rest ih =>
    cases d with
    | pattern name source place =>
      simpa [opened, Directive.isPattern, Directive.isTest, Nat.add_assoc, Nat.add_comm 1] using
        ih (count + 1)
    | flags names => simpa [opened, Directive.isPattern, Directive.isTest] using ih count
    | test others place => simpa [opened, Directive.isPattern, Directive.isTest] using ih count

theorem says_openCase {count : Nat} {fields : List Field} {span : Span}
    (honce : SetOnce noFields fields) (hinput : ∃ text, .input text ∈ fields) :
    Says fields (openCase count fields span).case := by
  have hheld (f : Field) := heldBy_iff_mem honce f
  refine ⟨?_, ?_, ?_⟩
  · obtain ⟨text, htext⟩ := hinput
    have hset : (fields.foldl Field.set noFields).input = some text := (hheld _).mpr htext
    simpa [openCase, hset] using htext
  · cases hset : (fields.foldl Field.set noFields).expectMatch with
    | none =>
      refine .inr ⟨by simp [openCase, hset], fun expected hmem => ?_⟩
      cases hset.symm.trans ((hheld (.expectMatch expected)).mpr hmem)
    | some expected =>
      refine .inl ?_
      simpa [openCase, hset] using (hheld (.expectMatch expected)).mp hset
  · cases hset : (fields.foldl Field.set noFields).groups with
    | none =>
      refine .inr ⟨by simp [openCase, hset], fun texts hmem => ?_⟩
      cases hset.symm.trans ((hheld (.groups texts)).mpr hmem)
    | some texts =>
      refine .inl ?_
      simpa [openCase, hset] using (hheld (.groups texts)).mp hset

/-- The pattern that a test case is for. -/
theorem close_eq_ok {patterns : List Declaration} {c : OpenCase} {c' : TestCase} :
    close patterns c = .ok c' ↔
      (c.wanted = none ∧ c' = c.case) ∨
      ∃ name place index, c.wanted = some (name, place) ∧
        patterns.findIdx? (·.name == name) = some index ∧
          c' = { c.case with pattern := index } := by
  unfold close
  split
  · rename_i hwanted
    simp [hwanted, eq_comm]
  · rename_i name place hwanted
    split
    · rename_i index hindex
      simp [hwanted, hindex, eq_comm]
    · rename_i hindex
      simp [hwanted, hindex]

theorem FitFrom.fields {ds before after : List Directive} {fields : List Field} {span : Span}
    (hfit : FitFrom [] ds) (heq : ds = before ++ .test fields span :: after) :
    SetOnce noFields fields ∧ (∃ text, .input text ∈ fields) ∧
      ((∀ name place, .pattern name place ∉ fields) → 0 < before.countP (·.isPattern)) := by
  obtain ⟨hnodup, hinput, hpattern⟩ := fitFrom_iff.mp hfit before _ after heq
  refine ⟨setOnce_noFields_iff.mpr hnodup, hinput, fun hno => ?_⟩
  rw [List.countP_pos_iff]
  refine declaredNames_ne_nil_iff.mp fun hnone => ?_
  obtain ⟨name, place, hmem⟩ := hpattern hnone
  exact hno name place hmem

/-- What the test case of some fields wants is the pattern that they name. -/
theorem wanted_openCase {count : Nat} {fields : List Field} {span : Span}
    (honce : SetOnce noFields fields) (name : String) (place : Span) :
    (openCase count fields span).wanted = some (name, place) ↔ .pattern name place ∈ fields :=
  heldBy_iff_mem honce (.pattern name place)

theorem wanted_openCase_eq_none {count : Nat} {fields : List Field} {span : Span}
    (honce : SetOnce noFields fields) :
    (openCase count fields span).wanted = none ↔ ∀ name place, .pattern name place ∉ fields := by
  have hwanted := @wanted_openCase count fields span honce
  simp only [← hwanted]
  cases (openCase count fields span).wanted <;> simp [Prod.ext_iff]

section

variable {ds : List Directive} {suite : Suite}

/-- The test case of some fields stands at their place, and has been closed. -/
theorem exists_closed
    (hcases : List.Forall₂ (fun c c' => close (declared ds) c = .ok c') (opened 0 ds) suite.cases)
    {before after : List Directive} {fields : List Field} {span : Span}
    (heq : ds = before ++ .test fields span :: after) :
    ∃ c, suite.cases[before.countP (·.isTest)]? = some c ∧
      close (declared ds) (openCase (before.countP (·.isPattern)) fields span) = .ok c := by
  have hopened := getElem?_opened fields span after before 0
  rw [← heq, Nat.zero_add] at hopened
  obtain ⟨hlt, hget⟩ := List.getElem?_eq_some_iff.mp hopened
  have hlt' := hlt
  rw [hcases.length_eq] at hlt'
  have hclose := hcases.get hlt hlt'
  simp only [List.get_eq_getElem, hget] at hclose
  exact ⟨_, List.getElem?_eq_getElem hlt', hclose⟩

theorem of_findIdx?_declared {name : String} {index : Nat}
    (hfound : (declared ds).findIdx? (·.name == name) = some index) :
    index < (declared ds).length ∧ (declared ds)[index]?.map (·.name) = some name := by
  obtain ⟨hlt, hname, -⟩ := List.findIdx?_eq_some_iff_getElem.mp hfound
  exact ⟨hlt, by rw [List.getElem?_eq_getElem hlt, Option.map_some, eq_of_beq hname]⟩

/-- Directives that fit are sound where their names could be looked up. -/
theorem FitFrom.sound_of_close (hfit : FitFrom [] ds)
    (hcases : List.Forall₂ (fun c c' => close (declared ds) c = .ok c') (opened 0 ds) suite.cases) :
    Sound ds := by
  refine sound_iff.mpr ⟨hfit, fun fields span name place hmem hpattern => ?_⟩
  obtain ⟨before, after, heq⟩ := List.append_of_mem hmem
  obtain ⟨honce, -⟩ := hfit.fields heq
  obtain ⟨c, -, hclose⟩ := exists_closed hcases heq
  rcases close_eq_ok.mp hclose with ⟨hnone, -⟩ | ⟨name', place', index, hwanted, hfound, -⟩
  · exact absurd hpattern ((wanted_openCase_eq_none honce).mp hnone name place)
  · have hsame := ((wanted_openCase honce name place).mpr hpattern).symm.trans hwanted
    cases hsame
    obtain ⟨p, hp, rfl⟩ := Option.map_eq_some_iff.mp (of_findIdx?_declared hfound).2
    rw [← map_name_declared]
    exact List.mem_map_of_mem (List.mem_of_getElem? hp)

/-- Where names are looked up, the directives are resolved. -/
theorem FitFrom.resolves_of_close (hfit : FitFrom [] ds) (hpatterns : suite.patterns = declared ds)
    (hcases : List.Forall₂ (fun c c' => close (declared ds) c = .ok c') (opened 0 ds) suite.cases) :
    Resolves ds suite := by
  refine ⟨?_, ?_, ?_, ?_, ?_⟩
  · rw [hpatterns, map_name_declared]
    exact (hfit.sound_of_close hcases).names_nodup
  · rw [hpatterns, length_declared]
  · rw [← hcases.length_eq, length_opened]
  · intro before name source span after heq
    rw [hpatterns, heq]
    exact getElem?_declared name source span after before
  · intro before fields span after heq
    rw [hpatterns]
    obtain ⟨honce, hinput, hafter⟩ := hfit.fields heq
    obtain ⟨c, hget, hclose⟩ := exists_closed hcases heq
    refine ⟨c, hget, ?_⟩
    have hfields : Says fields (openCase (before.countP (·.isPattern)) fields span).case :=
      says_openCase honce hinput
    rcases close_eq_ok.mp hclose with ⟨hnone, rfl⟩ | ⟨name, place, index, hwanted, hfound, rfl⟩
    · -- No pattern is named, so there is one before, and the last of them is meant.
      have hno := (wanted_openCase_eq_none honce).mp hnone
      have hbefore := hafter hno
      have hle : before.countP (·.isPattern) ≤ ds.countP (·.isPattern) := by
        rw [heq, List.countP_append]
        exact Nat.le_add_right _ _
      refine ⟨hfields, rfl, ?_, fun name place hmem => absurd hmem (hno name place), fun _ => ?_⟩
      · rw [length_declared]
        exact Nat.lt_of_lt_of_le (Nat.sub_lt hbefore Nat.zero_lt_one) hle
      · exact Nat.sub_add_cancel hbefore
    · have hmem := (wanted_openCase honce name place).mp hwanted
      obtain ⟨hlt, hname⟩ := of_findIdx?_declared hfound
      refine ⟨⟨hfields.input, hfields.expectMatch, hfields.groups⟩, rfl, hlt,
        fun name' place' hmem' => ?_, fun hno => absurd hmem (hno name place)⟩
      have hsame := ((wanted_openCase honce name' place').mpr hmem').symm.trans hwanted
      cases hsame
      exact hname

end

/-! Reading suites. -/

theorem mem_opened {c : OpenCase} {ds : List Directive} : ∀ {count : Nat}, c ∈ opened count ds →
    ∃ before fields span, .test fields span ∈ ds ∧ c = openCase before fields span := by
  induction ds with
  | nil => exact fun h => absurd h List.not_mem_nil
  | cons d rest ih =>
    intro count h
    cases d with
    | test fields span =>
      rcases List.mem_cons.mp h with rfl | h
      · exact ⟨count, fields, span, List.mem_cons_self, rfl⟩
      · obtain ⟨before, fields', span', hmem, rfl⟩ := ih h
        exact ⟨before, fields', span', List.mem_cons_of_mem _ hmem, rfl⟩
    | _ =>
      obtain ⟨before, fields, span, hmem, rfl⟩ := ih h
      exact ⟨before, fields, span, List.mem_cons_of_mem _ hmem, rfl⟩

/-- All names in test cases can be looked up. -/
theorem Sound.exists_close {ds : List Directive} (h : Sound ds) :
    ∃ cases, (opened 0 ds).mapM (close (declared ds)) = .ok cases := by
  refine exists_mapM fun c hc => ?_
  obtain ⟨before, fields, span, hmem, rfl⟩ := mem_opened hc
  cases hwanted : (openCase before fields span).wanted with
  | none => exact ⟨_, close_eq_ok.mpr (.inl ⟨hwanted, rfl⟩)⟩
  | some wanted =>
    obtain ⟨name, place⟩ := wanted
    have honce := setOnce_noFields_iff.mpr (h.fields_nodup fields span hmem)
    have hnamed := h.names_declared fields span name place hmem
      ((wanted_openCase honce name place).mp hwanted)
    rw [← map_name_declared, List.mem_map] at hnamed
    obtain ⟨p, hp, rfl⟩ := hnamed
    have hfound : ((declared ds).findIdx? (·.name == p.name)).isSome = true := by
      rw [List.findIdx?_isSome, List.any_eq_true]
      exact ⟨p, hp, beq_self_eq_true p.name⟩
    obtain ⟨index, hindex⟩ := Option.isSome_iff_exists.mp hfound
    exact ⟨_, close_eq_ok.mpr (.inr ⟨p.name, place, index, hwanted, hindex, rfl⟩)⟩

/-- The tokens of a source that matter. -/
def significant (source : List Char) : List SuiteToken :=
  (SuiteToken.tokenize source).filter (!·.kind.isTrivia)

theorem parse_eq_ok {source : List Char} {suite : Suite} : parse source = .ok suite ↔
    Text.byteLength source < Text.maxWord32 ∧
      ofTokens (significant source) (Text.byteLength source) = .ok suite := by
  unfold parse
  dsimp only
  split
  · rename_i hlarge
    simp only [Except.mapError, reduceCtorEq, false_iff, not_and]
    exact fun h => absurd h (Nat.not_lt.mpr hlarge)
  · rename_i hsmall
    rw [show (SuiteToken.tokenize source).filter (!·.kind.isTrivia) = significant source from rfl]
    cases ofTokens (significant source) (Text.byteLength source) with
    | error e => simp [Except.mapError]
    | ok made => simp [Except.mapError, Nat.not_le.mp hsmall]

/-- A suite that is read is resolved as its directives say, and they fit together. If they do not,
nothing is read; and if they do, a suite is, unless its text is too large. -/
theorem parse_resolves (source : List Char) :
    (∀ suite, parse source = .ok suite →
      ∃ ds, Written ds (significant source) ∧ Sound ds ∧ Resolves ds suite) ∧
    (∀ ds, Written ds (significant source) → ¬Sound ds → ∃ e, parse source = .error e) ∧
    ∀ ds, Written ds (significant source) → Sound ds → Text.byteLength source < Text.maxWord32 →
      ∃ suite, parse source = .ok suite ∧ Resolves ds suite := by
  have hread (suite : Suite) (h : parse source = .ok suite) :
      ∃ ds, Written ds (significant source) ∧ Sound ds ∧ Resolves ds suite := by
    obtain ⟨ds, hwritten, hfit, hpatterns, hcases⟩ := ofTokens_eq_ok.mp (parse_eq_ok.mp h).2
    exact ⟨ds, hwritten, hfit.sound_of_close hcases, hfit.resolves_of_close hpatterns hcases⟩
  refine ⟨hread, fun ds hwritten hunsound => ?_, fun ds hwritten hsound hsmall => ?_⟩
  · cases hparse : parse source with
    | error e => exact ⟨e, rfl⟩
    | ok suite =>
      -- What was read is sound, and nothing else is written here.
      obtain ⟨ds', hwritten', hsound, -⟩ := hread suite hparse
      exact absurd (hwritten.unique hwritten' ▸ hsound) hunsound
  · obtain ⟨cases, hcases⟩ := hsound.exists_close
    rw [mapM_eq_ok] at hcases
    have hfit := (sound_iff.mp hsound).1
    have hparse : parse source = .ok ⟨declared ds, cases⟩ :=
      parse_eq_ok.mpr ⟨hsmall, ofTokens_eq_ok.mpr ⟨ds, hwritten, hfit, rfl, hcases⟩⟩
    exact ⟨_, hparse, hfit.resolves_of_close rfl hcases⟩

/-- A test case names a pattern that is declared after it. -/
private def forward : List Char :=
  ("@pattern a='x' @flags=[I,] @test_case\x7binput='q',pattern=b,\x7d " ++
    "@pattern b='y' @test_case\x7binput='r'\x7d").toList

private def orphaned : List Char := "@flags=[]".toList

private def single : List Char := "@pattern a='x'".toList

theorem parse_resolves_forward :
    (∃ suite, parse forward = .ok suite ∧ suite.cases.map (·.pattern) = [1, 1] ∧
      ∃ ds, Written ds (significant forward) ∧ Sound ds ∧ Resolves ds suite) ∧
    (∃ ds, Written ds (significant orphaned) ∧ ¬Sound ds ∧ ∃ e, parse orphaned = .error e) ∧
    ∃ ds suite, Written ds (significant single) ∧ Sound ds ∧ parse single = .ok suite ∧
      Resolves ds suite := by
  refine ⟨?_, ?_, ?_⟩
  · have hread : ofTokens (significant forward) (Text.byteLength forward) =
        .ok ⟨[⟨"a", "x", ["I"], ⟨0, 14⟩⟩, ⟨"b", "y", [], ⟨60, 74⟩⟩],
          [⟨"q", true, [], 1, ⟨27, 59⟩⟩, ⟨"r", true, [], 1, ⟨75, 96⟩⟩]⟩ := by
      decide +kernel
    have hparse := parse_eq_ok.mpr ⟨by decide +kernel, hread⟩
    exact ⟨_, hparse, rfl, (parse_resolves forward).1 _ hparse⟩
  · have htokens : significant orphaned = [⟨.flagsWord, "@flags".toList, 0⟩, ⟨.equal, ['='], 6⟩,
        ⟨.openBracket, ['['], 7⟩, ⟨.closeBracket, [']'], 8⟩] := by rfl
    have hwritten : Written [.flags []] (significant orphaned) := by
      rw [htokens]
      exact .cons (.flags rfl rfl rfl (.none rfl)) .nil
    have hunsound : ¬Sound [.flags []] := by
      intro h
      obtain ⟨d, hd, -⟩ := h.flags_after [] [] [] rfl
      cases hd
    exact ⟨_, hwritten, hunsound, (parse_resolves orphaned).2.1 _ hwritten hunsound⟩
  · have htokens : significant single = [⟨.patternWord, "@pattern".toList, 0⟩, ⟨.name, ['a'], 9⟩,
        ⟨.equal, ['='], 10⟩, ⟨.text, "'x'".toList, 11⟩] := by rfl
    have hwritten : Written [.pattern "a" "x" ⟨0, 14⟩] (significant single) := by
      rw [htokens]
      exact .cons (@Directive.Spells.pattern ⟨.patternWord, "@pattern".toList, 0⟩ ⟨.name, ['a'], 9⟩
        ⟨.equal, ['='], 10⟩ ⟨.text, "'x'".toList, 11⟩ rfl rfl rfl rfl) .nil
    have hsound : Sound [.pattern "a" "x" ⟨0, 14⟩] := by
      refine sound_iff.mpr ⟨⟨List.not_mem_nil, trivial⟩, fun fields span name place hmem => ?_⟩
      simp at hmem
    obtain ⟨suite, hparse, hresolves⟩ :=
      (parse_resolves single).2.2 _ hwritten hsound (by decide +kernel)
    exact ⟨_, suite, hwritten, hsound, hparse, hresolves⟩

end RegexEngine.Suite
