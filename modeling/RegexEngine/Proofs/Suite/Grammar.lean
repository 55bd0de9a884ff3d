import Mathlib.Tactic.Tauto
import RegexEngine.Proofs.Steps
import RegexEngine.Suite.Parser

/-!
How suites are written. The directives of a suite are given by a grammar of its tokens, in which
lists may have one comma after their last item. A reader answers exactly where the next tokens spell
its answer, and takes them. Readers have one answer, so what they take is spelled in one way, and no
tokens spell two lists of directives.
-/

namespace RegexEngine.Suite

/-! The grammar. -/

/-- A field of a test case, as it is written. -/
inductive Field
  | input (text : String)
  | expectMatch (expected : Bool)
  | groups (texts : List String)
  /-- The name of a pattern, and where it stands. -/
  | pattern (name : String) (place : Span)

/-- The name of a field. -/
def Field.name : Field → String
  | input _ => "input"
  | expectMatch _ => "expect_match"
  | groups _ => "match_groups"
  | pattern _ _ => "pattern"

/-- A directive of a suite, as it is written, and where it stands. -/
inductive Directive
  | pattern (name source : String) (span : Span)
  | flags (names : List String)
  | test (fields : List Field) (span : Span)

/-- A single token of a kind, with a meaning. -/
def One {α : Type} (kind : SuiteTokenKind) (means : α → SuiteToken → Prop) (v : α)
    (tokens : List SuiteToken) : Prop :=
  ∃ t, tokens = [t] ∧ t.kind = kind ∧ means v t

/-- A token is a name. -/
def Names (name : String) (t : SuiteToken) : Prop := name = t.written

/-- A token is a string that stands for a text. -/
def Decodes (text : String) (t : SuiteToken) : Prop :=
  ∃ chars, decode t.start t.chars = .ok chars ∧ text = String.ofList chars

/-- The items of a list with commas between them, maybe a comma after the last one, and the token
that ends the list. -/
inductive Listed {α : Type} (closing : SuiteTokenKind) (spells : α → List SuiteToken → Prop) :
    List α → SuiteToken → List SuiteToken → Prop
  | none {last : SuiteToken} : last.kind = closing → Listed closing spells [] last [last]
  | one {v : α} {item : List SuiteToken} {last : SuiteToken} : spells v item →
      last.kind = closing → Listed closing spells [v] last (item ++ [last])
  | more {v : α} {item : List SuiteToken} {comma : SuiteToken} {vs : List α} {last : SuiteToken}
      {rest : List SuiteToken} : spells v item → comma.kind = .comma →
      Listed closing spells vs last rest →
        Listed closing spells (v :: vs) last (item ++ comma :: rest)

/-- The tokens of the value of a field. -/
inductive Field.SpellsValue : Field → List SuiteToken → Prop
  | input {text : String} {t : SuiteToken} : t.kind = .text → Decodes text t →
      SpellsValue (.input text) [t]
  | expectTrue {t : SuiteToken} : t.kind = .trueWord → SpellsValue (.expectMatch true) [t]
  | expectFalse {t : SuiteToken} : t.kind = .falseWord → SpellsValue (.expectMatch false) [t]
  | groups {texts : List String} {bracket last : SuiteToken} {items : List SuiteToken} :
      bracket.kind = .openBracket → Listed .closeBracket (One .text Decodes) texts last items →
        SpellsValue (.groups texts) (bracket :: items)
  | pattern {t : SuiteToken} : t.kind = .name → SpellsValue (.pattern t.written t.span) [t]

/-- The tokens of a field: its name, an equals sign and its value. -/
inductive Field.Spells : Field → List SuiteToken → Prop
  | intro {f : Field} {name equal : SuiteToken} {value : List SuiteToken} : name.kind = .name →
      name.written = f.name → equal.kind = .equal → f.SpellsValue value →
        f.Spells (name :: equal :: value)

/-- The tokens of a directive. -/
inductive Directive.Spells : Directive → List SuiteToken → Prop
  | pattern {word name equal source : SuiteToken} : word.kind = .patternWord → name.kind = .name →
      equal.kind = .equal → source.kind = .text →
        Spells (.pattern name.written (String.ofList (patternText source.chars))
          (word.span.through source.span)) [word, name, equal, source]
  | flags {names : List String} {word equal bracket last : SuiteToken} {items : List SuiteToken} :
      word.kind = .flagsWord → equal.kind = .equal → bracket.kind = .openBracket →
        Listed .closeBracket (One .name Names) names last items →
          Spells (.flags names) (word :: equal :: bracket :: items)
  | test {fields : List Field} {word brace last : SuiteToken} {items : List SuiteToken} :
      word.kind = .caseWord → brace.kind = .openBrace →
        Listed .closeBrace Field.Spells fields last items →
          Spells (.test fields (word.span.through last.span)) (word :: brace :: items)

/-- The tokens of directives one after the other. -/
inductive Written : List Directive → List SuiteToken → Prop
  | nil : Written [] []
  | cons {d : Directive} {ds : List Directive} {first rest : List SuiteToken} : d.Spells first →
      Written ds rest → Written (d :: ds) (first ++ rest)

/-! Readers. -/

/-- In a state, a reader answers exactly where the next tokens spell the answer, and takes them. -/
def TakesAt {α : Type} (x : Read α) (r : Reading) (spells : α → List SuiteToken → Prop) : Prop :=
  ∀ v r', x.run r = .ok (v, r') ↔
    ∃ taken rest, spells v taken ∧ r.tokens = taken ++ rest ∧ r' = { r with tokens := rest }

section

variable {α β : Type} {x : Read α} {f : α → Read β} {r : Reading}
  {spells spells' : α → List SuiteToken → Prop}

theorem TakesAt.congr (h : TakesAt x r spells)
    (hsame : ∀ v taken, spells v taken ↔ spells' v taken) : TakesAt x r spells' := by
  intro v r'
  rw [h v r']
  simp only [hsame]

theorem takesAt_bind {then_ : α → β → List SuiteToken → Prop} (hx : TakesAt x r spells)
    (hf : ∀ v taken rest, spells v taken → r.tokens = taken ++ rest →
      TakesAt (f v) { r with tokens := rest } (then_ v)) :
    TakesAt (x >>= f) r fun w taken => ∃ v first second,
      spells v first ∧ then_ v w second ∧ taken = first ++ second := by
  intro w r'
  rw [run_bind_eq_ok]
  constructor
  · rintro ⟨v, r₁, hrun, hrun'⟩
    obtain ⟨first, rest, hfirst, htokens, rfl⟩ := (hx v r₁).mp hrun
    obtain ⟨second, rest', hsecond, hrest, rfl⟩ := (hf v first rest hfirst htokens w r').mp hrun'
    refine ⟨first ++ second, rest', ⟨v, first, second, hfirst, hsecond, rfl⟩, ?_, rfl⟩
    rw [htokens, show rest = _ from hrest, List.append_assoc]
  · rintro ⟨_, rest, ⟨v, first, second, hfirst, hsecond, rfl⟩, htokens, rfl⟩
    rw [List.append_assoc] at htokens
    exact ⟨v, _, (hx v _).mpr ⟨first, second ++ rest, hfirst, htokens, rfl⟩,
      (hf v first _ hfirst htokens w _).mpr ⟨second, rest, hsecond, rfl, rfl⟩⟩

theorem takesAt_pure (v : α) : TakesAt (pure v) r fun w taken => w = v ∧ taken = [] := by
  intro w r'
  constructor
  · intro h
    cases h
    exact ⟨[], r.tokens, ⟨rfl, rfl⟩, rfl, rfl⟩
  · rintro ⟨_, rest, ⟨rfl, rfl⟩, htokens, rfl⟩
    rw [List.nil_append] at htokens
    rw [← htokens]
    rfl

theorem takesAt_bind_pure (g : α → β) (hx : TakesAt x r spells) :
    TakesAt (x >>= fun v => pure (g v)) r fun w taken => ∃ v, spells v taken ∧ w = g v := by
  refine (takesAt_bind hx fun v _ _ _ _ => takesAt_pure (g v)).congr fun w taken => ?_
  constructor
  · rintro ⟨v, first, _, hfirst, ⟨rfl, rfl⟩, rfl⟩
    rw [List.append_nil]
    exact ⟨v, hfirst, rfl⟩
  · rintro ⟨v, hv, rfl⟩
    exact ⟨v, taken, [], hv, ⟨rfl, rfl⟩, (List.append_nil taken).symm⟩

/-- What stops never answers. -/
theorem takesAt_failAt (fault : SuiteFault) (span : Span) :
    TakesAt (failAt fault span : Read α) r fun _ _ => False := by
  intro v r'
  constructor
  · intro h
    cases h
  · rintro ⟨_, _, h, _⟩
    exact h.elim

theorem takesAt_failOn (t : SuiteToken) (expected : String) :
    TakesAt (failOn t expected : Read α) r fun _ _ => False := by
  unfold failOn
  split
  · split <;> exact takesAt_failAt _ _
  · exact takesAt_failAt _ _
  · exact takesAt_failAt _ _

theorem takesAt_get_bind {f : Reading → Read α} (h : TakesAt (f r) r spells) :
    TakesAt (get >>= f) r spells :=
  h

end

/-! Single tokens. -/

theorem not_one_nil {α : Type} {kind : SuiteTokenKind} {means : α → SuiteToken → Prop} (v : α) :
    ¬One kind means v [] := by
  rintro ⟨t, hnil, _⟩
  cases hnil

theorem one_cons_iff {α : Type} {kind : SuiteTokenKind} {means : α → SuiteToken → Prop} {v : α}
    {t : SuiteToken} {rest : List SuiteToken} :
    One kind means v (t :: rest) ↔ t.kind = kind ∧ means v t ∧ rest = [] := by
  constructor
  · rintro ⟨t', hcons, hkind, hmeans⟩
    cases hcons
    exact ⟨hkind, hmeans, rfl⟩
  · rintro ⟨hkind, hmeans, rfl⟩
    exact ⟨t, rfl, hkind, hmeans⟩

section

variable {r : Reading}

theorem takesAt_nextFor (expected : String) :
    TakesAt (nextFor expected) r fun t taken => taken = [t] := by
  obtain ⟨tokens, stop, patterns, cases⟩ := r
  intro t r'
  cases tokens with
  | nil =>
    constructor
    · intro h
      cases h
    · rintro ⟨_, rest, rfl, hnil, _⟩
      cases hnil
  | cons first rest =>
    constructor
    · intro h
      cases h
      exact ⟨[t], rest, rfl, rfl, rfl⟩
    · rintro ⟨_, rest', rfl, hcons, rfl⟩
      cases hcons
      rfl

/-- What begins with the next token is spelled by it and by what is taken behind it. -/
theorem takesAt_next {α : Type} {f : SuiteToken → Read α} {spells : α → List SuiteToken → Prop}
    (expected : String) (hnil : ∀ v, ¬spells v [])
    (hf : ∀ t rest, r.tokens = t :: rest →
      TakesAt (f t) { r with tokens := rest } fun v taken => spells v (t :: taken)) :
    TakesAt (nextFor expected >>= f) r spells := by
  refine (takesAt_bind (takesAt_nextFor expected) fun t first rest hfirst htokens =>
    hf t rest (by rw [htokens, hfirst]; rfl)).congr fun v taken => ?_
  constructor
  · rintro ⟨t, _, taken, rfl, h, rfl⟩
    exact h
  · intro h
    cases taken with
    | nil => exact absurd h (hnil v)
    | cons t taken => exact ⟨t, [t], taken, rfl, h, rfl⟩

theorem takesAt_expect (kind : SuiteTokenKind) :
    TakesAt (expect kind) r (One kind Eq) := by
  refine takesAt_next _ not_one_nil fun t rest _ => ?_
  split
  · rename_i hkind
    exact (takesAt_pure t).congr fun v taken => by simp [one_cons_iff, hkind]
  · rename_i hkind
    exact (takesAt_failOn t _).congr fun v taken => by simp [one_cons_iff, hkind]

/-- After an item, a list goes on behind a comma, or else it ends. -/
theorem takesAt_separated {α : Type} {x : Read α} {more : α → List SuiteToken → Prop}
    {closing : SuiteTokenKind} (hclosing : closing ≠ .comma) (y : SuiteToken → α)
    (hx : ∀ comma rest, r.tokens = comma :: rest → TakesAt x { r with tokens := rest } more) :
    TakesAt (do if ← separated then x else pure (y (← expect closing))) r fun v taken =>
      (∃ comma rest, comma.kind = .comma ∧ taken = comma :: rest ∧ more v rest) ∨
        ∃ last, last.kind = closing ∧ taken = [last] ∧ v = y last := by
  obtain ⟨tokens, stop, patterns, cases⟩ := r
  intro v r'
  cases tokens with
  | nil =>
    constructor
    · intro h
      cases h
    · rintro ⟨_, rest, ⟨comma, rest', _, rfl, _⟩ | ⟨last, _, rfl, _⟩, hnil, _⟩ <;> cases hnil
  | cons t rest =>
    by_cases hkind : t.kind = .comma
    · have hrun : separated.run ⟨t :: rest, stop, patterns, cases⟩ =
          .ok (true, ⟨rest, stop, patterns, cases⟩) := by
        change (if t.kind = .comma then _ else _ : Read Bool).run _ = _
        rw [if_pos hkind]
        rfl
      rw [run_bind_of_ok hrun, if_pos rfl, hx t rest rfl v r']
      constructor
      · rintro ⟨taken, rest', hmore, rfl, rfl⟩
        exact ⟨t :: taken, rest', .inl ⟨t, taken, hkind, rfl, hmore⟩, rfl, rfl⟩
      · rintro ⟨_, rest', ⟨comma, taken, _, rfl, hmore⟩ | ⟨last, hlast, rfl, _⟩, htokens, rfl⟩
        · cases htokens
          exact ⟨taken, rest', hmore, rfl, rfl⟩
        · cases htokens
          exact absurd (hlast.symm.trans hkind) hclosing
    · have hrun : separated.run ⟨t :: rest, stop, patterns, cases⟩ =
          .ok (false, ⟨t :: rest, stop, patterns, cases⟩) := by
        change (if t.kind = .comma then _ else _ : Read Bool).run _ = _
        rw [if_neg hkind]
        rfl
      have hend := takesAt_bind (r := ⟨t :: rest, stop, patterns, cases⟩) (takesAt_expect closing)
        fun last _ _ _ _ => takesAt_pure (y last)
      rw [run_bind_of_ok hrun, if_neg Bool.false_ne_true, hend v r']
      constructor
      · rintro ⟨_, rest', ⟨_, _, _, ⟨last, rfl, hlast, rfl⟩, ⟨rfl, rfl⟩, rfl⟩, htokens, rfl⟩
        exact ⟨_, rest', .inr ⟨_, hlast, rfl, rfl⟩, htokens, rfl⟩
      · rintro ⟨_, rest', ⟨comma, taken, hcomma, rfl, _⟩ | ⟨last, hlast, rfl, rfl⟩, htokens, rfl⟩
        · cases htokens
          exact absurd hcomma hkind
        · exact ⟨_, rest', ⟨_, _, _, ⟨last, rfl, hlast, rfl⟩, ⟨rfl, rfl⟩, rfl⟩, htokens, rfl⟩

end

/-! Lists. -/

section

variable {α : Type} {closing : SuiteTokenKind} {spells : α → List SuiteToken → Prop}

/-- What a list begins with: the token that ends it, or its first item. -/
theorem listed_cons_iff (hspells : ∀ v, ¬spells v []) {vs : List α} {last t : SuiteToken}
    {taken : List SuiteToken} :
    Listed closing spells vs last (t :: taken) ↔
      (t.kind = closing ∧ vs = [] ∧ last = t ∧ taken = []) ∨
      ∃ v item more, spells v (t :: item) ∧ taken = item ++ more ∧
        ((∃ comma rest, comma.kind = .comma ∧ more = comma :: rest ∧
            ∃ vs', vs = v :: vs' ∧ Listed closing spells vs' last rest) ∨
          last.kind = closing ∧ more = [last] ∧ vs = [v]) := by
  constructor
  · generalize htokens : t :: taken = tokens
    intro h
    cases h with
    | none hlast =>
      cases htokens
      exact .inl ⟨hlast, rfl, rfl, rfl⟩
    | @one v item _ hitem hlast =>
      cases item with
      | nil => exact absurd hitem (hspells v)
      | cons first item =>
        cases htokens
        exact .inr ⟨v, item, _, hitem, rfl, .inr ⟨hlast, rfl, rfl⟩⟩
    | @more v item comma vs _ rest hitem hcomma hrest =>
      cases item with
      | nil => exact absurd hitem (hspells v)
      | cons first item =>
        cases htokens
        exact .inr ⟨v, item, _, hitem, rfl, .inl ⟨comma, rest, hcomma, rfl, vs, rfl, hrest⟩⟩
  · rintro (⟨hlast, rfl, rfl, rfl⟩ | ⟨v, item, more, hitem, rfl,
      ⟨comma, rest, hcomma, rfl, vs', rfl, hrest⟩ | ⟨hlast, rfl, rfl⟩⟩)
    · exact .none hlast
    · exact .more hitem hcomma hrest
    · exact .one hitem hlast

theorem not_listed_nil {vs : List α} {last : SuiteToken} : ¬Listed closing spells vs last [] := by
  generalize htokens : [] = tokens
  intro h
  cases h <;> simp at htokens

end

section

variable {α : Type} {closing kind : SuiteTokenKind} {expected : String}
  {item : SuiteToken → Read α} {means : α → SuiteToken → Prop}
  (hclosing : closing ≠ .comma) (hkind : kind ≠ closing)
  (hitem : ∀ t r, TakesAt (item t) r fun v taken => means v t ∧ taken = [])

include hclosing hkind hitem

theorem takesAt_items (fuel : Nat) : ∀ r : Reading, r.tokens.length < fuel →
    TakesAt (items closing kind expected item fuel) r fun out taken =>
      Listed closing (One kind means) out.1 out.2 taken := by
  induction fuel with
  | zero => exact fun _ h => absurd h (Nat.not_lt_zero _)
  | succ fuel ih =>
    intro r hfuel
    unfold items
    refine takesAt_next expected (fun _ => not_listed_nil) fun t rest htokens => ?_
    -- A round takes a token at least, so the fuel lasts for the rest.
    have hlength : rest.length < fuel := by
      rw [htokens, List.length_cons] at hfuel
      omega
    split
    · rename_i hlast
      refine (takesAt_pure ([], t)).congr fun out taken => ?_
      rw [listed_cons_iff not_one_nil]
      constructor
      · rintro ⟨rfl, rfl⟩
        exact .inl ⟨hlast, rfl, rfl, rfl⟩
      · rintro (⟨_, hnil, hout, rfl⟩ | ⟨v, _, _, hone, _⟩)
        · exact ⟨Prod.ext hnil hout, rfl⟩
        · exact absurd ((one_cons_iff.mp hone).1.symm.trans hlast) hkind
    · rename_i hlast
      split
      · rename_i hfirst
        have hmore (v : α) (r : Reading) (hr : r.tokens.length ≤ fuel) :=
          takesAt_separated (r := r) hclosing (fun last => ([v], last))
            fun comma rest htokens => takesAt_bind (ih { r with tokens := rest } (by
                rw [htokens] at hr
                exact hr))
              fun out _ _ _ _ => takesAt_pure (v :: out.1, out.2)
        refine (takesAt_bind (hitem t _) fun v taken rest' hv hrest => hmore v _ ?_).congr
          fun out taken => ?_
        · obtain ⟨-, rfl⟩ := hv
          rw [show rest = rest' from hrest] at hlength
          exact Nat.le_of_lt hlength
        · rw [listed_cons_iff not_one_nil]
          constructor
          · rintro ⟨v, _, _, ⟨hv, rfl⟩, hend, rfl⟩
            refine .inr ⟨v, [], taken, one_cons_iff.mpr ⟨hfirst, hv, rfl⟩, rfl, ?_⟩
            rcases hend with ⟨comma, _, hcomma, rfl, o, rest, _, hrest, ⟨rfl, rfl⟩, rfl⟩ |
              ⟨last, hclose, rfl, rfl⟩
            · exact .inl ⟨comma, rest, hcomma, by rw [List.append_nil], o.1, rfl, hrest⟩
            · exact .inr ⟨hclose, rfl, rfl⟩
          · rintro (⟨hclose, _⟩ | ⟨v, item, more, hone, rfl, hend⟩)
            · exact absurd hclose hlast
            · obtain ⟨-, hv, rfl⟩ := one_cons_iff.mp hone
              refine ⟨v, [], more, ⟨hv, rfl⟩, ?_, rfl⟩
              rcases hend with ⟨comma, rest, hcomma, rfl, vs, hvs, hrest⟩ | ⟨hclose, rfl, hvs⟩
              · exact .inl ⟨comma, rest, hcomma, rfl, (vs, out.2), rest, [], hrest,
                  ⟨Prod.ext hvs rfl, rfl⟩, (List.append_nil rest).symm⟩
              · exact .inr ⟨out.2, hclose, rfl, Prod.ext hvs rfl⟩
      · rename_i hother
        refine (takesAt_failOn t expected).congr fun out taken => ?_
        rw [listed_cons_iff not_one_nil]
        simp only [one_cons_iff, hlast, hother, false_and, exists_false, or_self]

theorem takesAt_list (r : Reading) :
    TakesAt (list closing kind expected item) r fun out taken =>
      Listed closing (One kind means) out.1 out.2 taken :=
  takesAt_get_bind (takesAt_items hclosing hkind hitem _ r (Nat.lt_succ_self _))

end

/-! Fields of test cases. -/

theorem takesAt_decoded (t : SuiteToken) (r : Reading) :
    TakesAt (decoded t) r fun text taken => Decodes text t ∧ taken = [] := by
  unfold decoded
  split
  · rename_i chars hchars
    refine (takesAt_pure _).congr fun text taken => ?_
    simp [Decodes, hchars]
  · rename_i e he
    intro v r'
    constructor
    · intro h
      cases h
    · rintro ⟨_, _, ⟨⟨chars, hchars, _⟩, _⟩, _⟩
      rw [he] at hchars
      cases hchars

theorem takesAt_readBool (r : Reading) :
    TakesAt readBool r fun expected taken => (Field.expectMatch expected).SpellsValue taken := by
  refine takesAt_next _ (fun _ h => nomatch h) fun t rest _ => ?_
  split
  · rename_i hkind
    refine (takesAt_pure true).congr fun expected taken => ?_
    constructor
    · rintro ⟨rfl, rfl⟩
      exact .expectTrue hkind
    · intro h
      cases h with
      | expectTrue => exact ⟨rfl, rfl⟩
      | expectFalse hother => cases hkind.symm.trans hother
  · rename_i hkind
    refine (takesAt_pure false).congr fun expected taken => ?_
    constructor
    · rintro ⟨rfl, rfl⟩
      exact .expectFalse hkind
    · intro h
      cases h with
      | expectTrue hother => cases hkind.symm.trans hother
      | expectFalse => exact ⟨rfl, rfl⟩
  · rename_i htrue hfalse
    refine (takesAt_failOn t _).congr fun expected taken => ?_
    simp only [false_iff]
    intro h
    cases h with
    | expectTrue h => exact htrue h
    | expectFalse h => exact hfalse h

theorem takesAt_readTexts (r : Reading) :
    TakesAt readTexts r fun texts taken => (Field.groups texts).SpellsValue taken := by
  have hlist (r : Reading) : TakesAt (list .closeBracket .text "string or `]`" decoded) r
      fun out taken => Listed .closeBracket (One .text Decodes) out.1 out.2 taken :=
    takesAt_list (by decide) (by decide) takesAt_decoded r
  unfold readTexts
  rw [map_eq_pure_bind]
  refine (takesAt_bind (takesAt_expect .openBracket) fun _ _ _ _ _ =>
    takesAt_bind_pure (·.1) (hlist _)).congr fun texts taken => ?_
  constructor
  · rintro ⟨_, _, _, ⟨bracket, rfl, hbracket, rfl⟩, ⟨out, hout, rfl⟩, rfl⟩
    exact .groups hbracket hout
  · intro h
    cases h with
    | groups hbracket hout => exact ⟨_, _, _, ⟨_, rfl, hbracket, rfl⟩, ⟨(_, _), hout, rfl⟩, rfl⟩

/-- A field was set before. -/
def Field.isSetIn (fields : Fields) : Field → Bool
  | input _ => fields.input.isSome
  | expectMatch _ => fields.expectMatch.isSome
  | groups _ => fields.groups.isSome
  | pattern _ _ => fields.pattern.isSome

/-- Sets a field. -/
def Field.set (fields : Fields) : Field → Fields
  | input text => { fields with input := some text }
  | expectMatch expected => { fields with expectMatch := some expected }
  | groups texts => { fields with groups := some texts }
  | pattern name place => { fields with pattern := some (name, place) }

section

variable (before : Fields) {name : SuiteToken} (hname : name.kind = .name)

include hname

/-- After the name of a field, there is an equals sign and a value, unless the field was set before.
-/
theorem takesAt_once {β : Type} (make : β → Field) {isSet : Bool} {fault : SuiteFault}
    {y : Read Change} (hmake : ∀ f : Field, f.name = name.written ↔ ∃ v, f = make v)
    (hset : ∀ v, (make v).isSetIn before = isSet)
    (hy : ∀ r, TakesAt y r fun change taken =>
      ∃ v, (make v).SpellsValue taken ∧ change = ((make v).set ·))
    (r : Reading) :
    TakesAt (do
      (do
        if isSet then failAt fault name.span
        let _ ← expect .equal : Read Unit)
      y) r fun change taken =>
        ∃ f : Field, f.Spells (name :: taken) ∧ f.isSetIn before = false ∧ change = (f.set ·) := by
  cases isSet with
  | true =>
    intro change r'
    constructor
    · intro h
      cases h
    · rintro ⟨_, _, ⟨f, hspells, hnot, _⟩, _⟩
      cases hspells with
      | intro _ hf _ _ =>
        obtain ⟨v, rfl⟩ := (hmake f).mp hf.symm
        cases hnot.symm.trans (hset v)
  | false =>
    refine (takesAt_bind (takesAt_bind_pure (fun _ => ()) (takesAt_expect .equal)) fun _ _ _ _ _ =>
      hy _).congr fun change taken => ?_
    constructor
    · rintro ⟨_, _, value, ⟨_, ⟨equal, rfl, hequal, rfl⟩, rfl⟩, ⟨v, hvalue, rfl⟩, rfl⟩
      exact ⟨make v, .intro hname ((hmake _).mpr ⟨v, rfl⟩).symm hequal hvalue, hset v, rfl⟩
    · rintro ⟨f, hspells, _, rfl⟩
      cases hspells with
      | intro _ hf hequal hvalue =>
        obtain ⟨v, rfl⟩ := (hmake f).mp hf.symm
        exact ⟨_, _, _, ⟨_, ⟨_, rfl, hequal, rfl⟩, rfl⟩, ⟨v, hvalue, rfl⟩, rfl⟩

theorem takesAt_readField (r : Reading) :
    TakesAt (readField before name) r fun change taken =>
      ∃ f : Field, f.Spells (name :: taken) ∧ f.isSetIn before = false ∧ change = (f.set ·) := by
  unfold readField
  dsimp only
  split
  · rename_i hword
    refine takesAt_once before hname Field.input
      (fun f => by rw [hword]; cases f <;> simp [Field.name]) (fun _ => rfl) (fun r => ?_) r
    refine (takesAt_bind (takesAt_expect .text) fun t _ _ _ _ =>
      takesAt_bind_pure _ (takesAt_decoded t _)).congr fun change taken => ?_
    constructor
    · rintro ⟨_, _, _, ⟨t, rfl, htext, rfl⟩, ⟨text, ⟨hdecodes, rfl⟩, rfl⟩, rfl⟩
      exact ⟨text, .input htext hdecodes, rfl⟩
    · rintro ⟨text, hvalue, rfl⟩
      cases hvalue with
      | input htext hdecodes =>
        exact ⟨_, _, _, ⟨_, rfl, htext, rfl⟩, ⟨text, ⟨hdecodes, rfl⟩, rfl⟩, rfl⟩
  · rename_i hword
    exact takesAt_once before hname Field.expectMatch
      (fun f => by rw [hword]; cases f <;> simp [Field.name]) (fun _ => rfl)
      (fun r => takesAt_bind_pure _ (takesAt_readBool r)) r
  · rename_i hword
    exact takesAt_once before hname Field.groups
      (fun f => by rw [hword]; cases f <;> simp [Field.name]) (fun _ => rfl)
      (fun r => takesAt_bind_pure _ (takesAt_readTexts r)) r
  · rename_i hword
    refine takesAt_once before hname (fun wanted : String × Span => .pattern wanted.1 wanted.2)
      (fun f => by rw [hword]; cases f <;> simp [Field.name]) (fun _ => rfl) (fun r => ?_) r
    refine (takesAt_bind_pure _ (takesAt_expect .name)).congr fun change taken => ?_
    constructor
    · rintro ⟨t, ⟨_, rfl, hkind, rfl⟩, rfl⟩
      exact ⟨(t.written, t.span), .pattern hkind, rfl⟩
    · rintro ⟨⟨wanted, place⟩, hvalue, rfl⟩
      cases hvalue with
      | pattern hkind => exact ⟨_, ⟨_, rfl, hkind, rfl⟩, rfl⟩
  · rename_i hinput hexpect hgroups hpattern
    refine (takesAt_failAt _ _).congr fun change taken => ?_
    simp only [false_iff]
    rintro ⟨f, hspells, _⟩
    cases hspells with
    | intro _ hf _ _ =>
      cases f with
      | input => exact hinput hf
      | expectMatch => exact hexpect hf
      | groups => exact hgroups hf
      | pattern => exact hpattern hf

end

/-- Fields that are set one after the other, none of them twice. -/
def SetOnce : Fields → List Field → Prop
  | _, [] => True
  | before, f :: rest => f.isSetIn before = false ∧ SetOnce (f.set before) rest

theorem not_spells_nil (f : Field) : ¬f.Spells [] := by
  rintro ⟨⟩

theorem kind_of_spells {f : Field} {t : SuiteToken} {rest : List SuiteToken}
    (h : f.Spells (t :: rest)) : t.kind = .name := by
  cases h with
  | intro hname _ _ _ => exact hname

theorem takesAt_readFields (fuel : Nat) : ∀ (before : Fields) (r : Reading),
    r.tokens.length < fuel →
      TakesAt (readFields fuel before) r fun out taken => ∃ fields last,
        Listed .closeBrace Field.Spells fields last taken ∧ SetOnce before fields ∧
          out = (fields.foldl Field.set before, last.span) := by
  induction fuel with
  | zero => exact fun _ _ h => absurd h (Nat.not_lt_zero _)
  | succ fuel ih =>
    intro before r hfuel
    unfold readFields
    refine takesAt_next _ (fun _ ⟨_, _, h, _⟩ => not_listed_nil h) fun t rest htokens => ?_
    have hlength : rest.length < fuel := by
      rw [htokens, List.length_cons] at hfuel
      omega
    split
    · rename_i hlast
      refine (takesAt_pure _).congr fun out taken => ?_
      constructor
      · rintro ⟨rfl, rfl⟩
        exact ⟨[], t, .none hlast, trivial, rfl⟩
      · rintro ⟨fields, last, hlisted, -, rfl⟩
        rcases (listed_cons_iff not_spells_nil).mp hlisted with ⟨_, rfl, rfl, rfl⟩ |
          ⟨f, _, _, hf, _⟩
        · exact ⟨rfl, rfl⟩
        · cases hlast.symm.trans (kind_of_spells hf)
    · rename_i hname
      have hbrace : SuiteTokenKind.closeBrace ≠ .comma := by decide
      have hmore (set : Fields) (r : Reading) (hr : r.tokens.length ≤ fuel) :=
        takesAt_separated (r := r) hbrace (fun last => (set, last.span))
          fun comma rest htokens => ih set { r with tokens := rest } (by
            rw [htokens] at hr
            exact hr)
      refine (takesAt_bind (takesAt_readField before hname _) fun change item rest' _ hrest =>
        hmore (change before) _ ?_).congr fun out taken => ?_
      · rw [show rest = item ++ rest' from hrest, List.length_append] at hlength
        exact Nat.le_of_lt (Nat.lt_of_le_of_lt (Nat.le_add_left _ _) hlength)
      · constructor
        · rintro ⟨_, item, _, ⟨f, hf, hnot, rfl⟩,
            ⟨comma, rest, hcomma, rfl, fields, last, hlisted, honce, rfl⟩ |
              ⟨last, hlast, rfl, rfl⟩, rfl⟩
          · exact ⟨f :: fields, last, .more hf hcomma hlisted, ⟨hnot, honce⟩, rfl⟩
          · exact ⟨[f], last, .one hf hlast, ⟨hnot, trivial⟩, rfl⟩
        · rintro ⟨fields, last, hlisted, honce, rfl⟩
          rcases (listed_cons_iff not_spells_nil).mp hlisted with ⟨hlast, _⟩ |
            ⟨f, item, more, hf, rfl, hend⟩
          · cases hlast.symm.trans hname
          · rcases hend with ⟨comma, rest, hcomma, rfl, others, rfl, hlisted'⟩ | ⟨hlast, rfl, rfl⟩
            · exact ⟨_, item, _, ⟨f, hf, honce.1, rfl⟩,
                .inl ⟨comma, rest, hcomma, rfl, others, last, hlisted', honce.2, rfl⟩, rfl⟩
            · exact ⟨_, item, _, ⟨f, hf, honce.1, rfl⟩, .inr ⟨last, hlast, rfl, rfl⟩, rfl⟩
    · rename_i hclose hname
      refine (takesAt_failOn t _).congr fun out taken => ?_
      simp only [false_iff]
      rintro ⟨fields, last, hlisted, _⟩
      rcases (listed_cons_iff not_spells_nil).mp hlisted with ⟨hlast, _⟩ | ⟨f, _, _, hf, _⟩
      · exact hclose hlast
      · exact hname (kind_of_spells hf)

theorem isSetIn_set (before : Fields) (f g : Field) :
    g.isSetIn (f.set before) = (f.name == g.name || g.isSetIn before) := by
  cases f <;> cases g <;> simp [Field.isSetIn, Field.set, Field.name]

/-- Fields are set once if no two of them have the same name. -/
theorem setOnce_iff {fields : List Field} : ∀ {before : Fields}, SetOnce before fields ↔
    (∀ f ∈ fields, f.isSetIn before = false) ∧ (fields.map (·.name)).Nodup := by
  induction fields with
  | nil => simp [SetOnce]
  | cons f rest ih =>
    intro before
    simp only [SetOnce, ih, isSetIn_set, Bool.or_eq_false_iff, beq_eq_false_iff_ne, List.map_cons,
      List.nodup_cons, List.mem_map, not_exists, not_and, List.forall_mem_cons]
    constructor
    · rintro ⟨hf, hrest, hnodup⟩
      exact ⟨⟨hf, fun g hg => (hrest g hg).2⟩, fun g hg h => (hrest g hg).1 h.symm, hnodup⟩
    · rintro ⟨⟨hf, hrest⟩, hfirst, hnodup⟩
      exact ⟨hf, fun g hg => ⟨fun h => hfirst g hg h.symm, hrest g hg⟩, hnodup⟩

/-- Nothing is set. -/
def noFields : Fields := ⟨none, none, none, none⟩

/-- A field is set as it is here. -/
def Field.HeldBy (set : Fields) : Field → Prop
  | input text => set.input = some text
  | expectMatch expected => set.expectMatch = some expected
  | groups texts => set.groups = some texts
  | pattern name place => set.pattern = some (name, place)

theorem heldBy_set {before : Fields} {f : Field} (hnot : f.isSetIn before = false) (g : Field) :
    g.HeldBy (f.set before) ↔ f = g ∨ g.HeldBy before := by
  cases f <;> cases g <;> simp_all [Field.isSetIn, Field.HeldBy, Field.set]

theorem heldBy_foldl {fields : List Field} (g : Field) : ∀ {before : Fields},
    SetOnce before fields →
      (g.HeldBy (fields.foldl Field.set before) ↔ g ∈ fields ∨ g.HeldBy before) := by
  induction fields with
  | nil => simp
  | cons f rest ih =>
    intro before honce
    rw [List.foldl_cons, ih honce.2, heldBy_set honce.1, List.mem_cons, eq_comm]
    tauto

/-- What is set by fields is what they say. -/
theorem heldBy_iff_mem {fields : List Field} (honce : SetOnce noFields fields) (g : Field) :
    g.HeldBy (fields.foldl Field.set noFields) ↔ g ∈ fields := by
  rw [heldBy_foldl g honce]
  cases g <;> simp [Field.HeldBy, noFields]

theorem exists_pattern_iff {fields : List Field} (honce : SetOnce noFields fields) :
    (∃ name place, Field.pattern name place ∈ fields) ↔
      (fields.foldl Field.set noFields).pattern.isNone = false := by
  simp only [← heldBy_iff_mem honce, Field.HeldBy]
  cases (fields.foldl Field.set noFields).pattern with
  | none => simp
  | some wanted => simp [Prod.ext_iff]

theorem setOnce_noFields_iff {fields : List Field} :
    SetOnce noFields fields ↔ (fields.map (·.name)).Nodup := by
  rw [setOnce_iff]
  refine ⟨fun h => h.2, fun h => ⟨fun f _ => ?_, h⟩⟩
  cases f <;> rfl

theorem takesAt_flagNames (r : Reading) :
    TakesAt (list .closeBracket .name "flag name or `]`" fun t => pure t.written) r
      fun out taken => Listed .closeBracket (One .name Names) out.1 out.2 taken :=
  takesAt_list (by decide) (by decide) (fun t _ => takesAt_pure t.written) r

/-! Directives are written in one way only. -/

/-- No tokens begin in two ways that are spelled. -/
def Unambiguous {α : Type} (spells : α → List SuiteToken → Prop) : Prop :=
  ∀ ⦃v v' : α⦄ ⦃s s' r r' : List SuiteToken⦄, spells v s → spells v' s' → s ++ r = s' ++ r' →
    v = v' ∧ s = s'

section

variable {α : Type} {spells : α → List SuiteToken → Prop}

/-- What a reader takes is unambiguous, because a reader has one answer. -/
theorem unambiguous_of_takesAt {x : Read α} (hx : ∀ r, TakesAt x r spells) :
    Unambiguous spells := by
  intro v v' s s' r r' h h' heq
  have hrun := (hx ⟨s ++ r, 0, [], []⟩ v _).mpr ⟨s, r, h, rfl, rfl⟩
  have hrun' := (hx ⟨s ++ r, 0, [], []⟩ v' _).mpr ⟨s', r', h', heq, rfl⟩
  cases hrun.symm.trans hrun'
  exact ⟨rfl, List.append_cancel_right heq⟩

variable {closing : SuiteTokenKind}

/-- A list that begins as an item does has the item, and goes on behind it or ends. -/
theorem exists_behind_item (hspells : Unambiguous spells) (hnil : ∀ v, ¬spells v [])
    (hhead : ∀ v t rest, spells v (t :: rest) → t.kind ≠ closing) {v : α} {vs : List α}
    {last : SuiteToken} {item s r r' : List SuiteToken} (hitem : spells v item)
    (h : Listed closing spells vs last s) (heq : item ++ r = s ++ r') :
    ∃ more, s = item ++ more ∧ r = more ++ r' ∧
      ((∃ comma rest, comma.kind = .comma ∧ more = comma :: rest ∧
          ∃ vs', vs = v :: vs' ∧ Listed closing spells vs' last rest) ∨
        last.kind = closing ∧ more = [last] ∧ vs = [v]) := by
  cases item with
  | nil => exact absurd hitem (hnil v)
  | cons t item =>
    cases s with
    | nil => exact absurd h not_listed_nil
    | cons t' s =>
      obtain ⟨rfl, hrest⟩ := List.cons.inj heq
      rcases (listed_cons_iff hnil).mp h with ⟨hclose, _⟩ | ⟨v', item', more, hitem', rfl, hend⟩
      · exact absurd hclose (hhead v _ item hitem)
      · rw [List.append_eq, List.append_eq, List.append_assoc] at hrest
        obtain ⟨rfl, hsame⟩ := hspells hitem hitem' (congrArg (t :: ·) hrest)
        obtain rfl := List.cons.inj hsame |>.2
        exact ⟨more, rfl, List.append_cancel_left hrest, hend⟩

theorem listed_unambiguous (hspells : Unambiguous spells) (hnil : ∀ v, ¬spells v [])
    (hhead : ∀ v t rest, spells v (t :: rest) → t.kind ≠ closing) (hclosing : closing ≠ .comma)
    {vs : List α} {last : SuiteToken} {s : List SuiteToken} (h : Listed closing spells vs last s) :
    ∀ {vs' : List α} {last' : SuiteToken} {s' r r' : List SuiteToken},
      Listed closing spells vs' last' s' → s ++ r = s' ++ r' →
        vs = vs' ∧ last = last' ∧ s = s' := by
  -- Both lists begin with the same item, and the token behind it says whether there are more.
  induction h with
  | @none last hlast =>
    intro vs' last' s' r r' h' heq
    cases s' with
    | nil => exact absurd h' not_listed_nil
    | cons t s' =>
      obtain ⟨rfl, -⟩ := List.cons.inj heq
      rcases (listed_cons_iff hnil).mp h' with ⟨-, rfl, rfl, rfl⟩ | ⟨v, item, _, hitem, _⟩
      · exact ⟨rfl, rfl, rfl⟩
      · exact absurd hlast (hhead v _ item hitem)
  | @one v item last hitem hlast =>
    intro vs' last' s' r r' h' heq
    rw [List.append_assoc] at heq
    obtain ⟨more, rfl, hmore, hend⟩ := exists_behind_item hspells hnil hhead hitem h' heq
    rcases hend with ⟨comma, rest, hcomma, rfl, _⟩ | ⟨-, rfl, rfl⟩
    · obtain ⟨rfl, -⟩ := List.cons.inj hmore
      exact absurd (hlast.symm.trans hcomma) hclosing
    · obtain ⟨rfl, -⟩ := List.cons.inj hmore
      exact ⟨rfl, rfl, rfl⟩
  | @more v item comma vs last rest hitem hcomma hrest ih =>
    intro vs' last' s' r r' h' heq
    rw [List.append_assoc] at heq
    obtain ⟨more, rfl, hmore, hend⟩ := exists_behind_item hspells hnil hhead hitem h' heq
    rcases hend with ⟨comma', rest', _, rfl, vs', rfl, hrest'⟩ | ⟨hlast, rfl, rfl⟩
    · obtain ⟨rfl, hbehind⟩ := List.cons.inj hmore
      obtain ⟨rfl, rfl, rfl⟩ := ih hrest' hbehind
      exact ⟨rfl, rfl, rfl⟩
    · obtain ⟨rfl, -⟩ := List.cons.inj hmore
      exact absurd (hlast.symm.trans hcomma) hclosing

end

theorem set_injective {f g : Field} (h : f.set noFields = g.set noFields) : f = g := by
  cases f <;> cases g <;> simp_all [Field.set, noFields]

theorem field_unambiguous : Unambiguous Field.Spells := by
  intro f f' s s' r r' h h' heq
  have hboth := And.intro h h'
  cases h with
  | @intro name equal value hname _ _ _ =>
    cases h' with
    | @intro name' equal' value' _ _ _ _ =>
      -- The reader answers with what sets the field. Where nothing is set, that shows the field.
      have hnotSet (f : Field) : f.isSetIn noFields = false := by cases f <;> rfl
      change name :: ((equal :: value) ++ r) = name' :: ((equal' :: value') ++ r') at heq
      obtain ⟨rfl, hvalues⟩ := List.cons.inj heq
      have hone := unambiguous_of_takesAt (takesAt_readField noFields hname)
        ⟨f, hboth.1, hnotSet f, rfl⟩ ⟨f', hboth.2, hnotSet f', rfl⟩ hvalues
      exact ⟨set_injective (congrFun hone.1 noFields), congrArg (name :: ·) hone.2⟩

theorem directive_unambiguous : Unambiguous Directive.Spells := by
  intro d d' s s' r r' h h' heq
  cases h with
  | @pattern word name equal source hword hname hequal hsource =>
    cases h' with
    | pattern =>
      simp only [List.cons_append, List.nil_append, List.cons.injEq] at heq
      obtain ⟨rfl, rfl, rfl, rfl, -⟩ := heq
      exact ⟨rfl, rfl⟩
    | flags hword' =>
      obtain ⟨rfl, -⟩ := List.cons.inj heq
      cases hword.symm.trans hword'
    | test hword' =>
      obtain ⟨rfl, -⟩ := List.cons.inj heq
      cases hword.symm.trans hword'
  | @flags names word equal bracket last items hword hequal hbracket hitems =>
    cases h' with
    | pattern hword' =>
      obtain ⟨rfl, -⟩ := List.cons.inj heq
      cases hword.symm.trans hword'
    | @flags names' _ _ _ last' items' _ _ _ hitems' =>
      simp only [List.cons_append, List.cons.injEq] at heq
      obtain ⟨rfl, rfl, rfl, heq⟩ := heq
      have hone := unambiguous_of_takesAt takesAt_flagNames
        (show Listed _ _ (names, last).1 (names, last).2 items from hitems)
        (show Listed _ _ (names', last').1 (names', last').2 items' from hitems') heq
      obtain ⟨hnames, rfl⟩ := hone
      cases hnames
      exact ⟨rfl, rfl⟩
    | test hword' =>
      obtain ⟨rfl, -⟩ := List.cons.inj heq
      cases hword.symm.trans hword'
  | @test fields word brace last items hword hbrace hitems =>
    cases h' with
    | pattern hword' =>
      obtain ⟨rfl, -⟩ := List.cons.inj heq
      cases hword.symm.trans hword'
    | flags hword' =>
      obtain ⟨rfl, -⟩ := List.cons.inj heq
      cases hword.symm.trans hword'
    | @test fields' _ _ last' items' _ _ hitems' =>
      simp only [List.cons_append, List.cons.injEq] at heq
      obtain ⟨rfl, rfl, heq⟩ := heq
      obtain ⟨rfl, rfl, rfl⟩ := listed_unambiguous field_unambiguous not_spells_nil
        (fun f t rest hf => by rw [kind_of_spells hf]; decide) (by decide) hitems hitems' heq
      exact ⟨rfl, rfl⟩

theorem written_nil_iff {ds : List Directive} : Written ds [] ↔ ds = [] := by
  constructor
  · generalize htokens : [] = tokens
    intro h
    cases h with
    | nil => rfl
    | cons hspells _ => cases hspells <;> cases htokens
  · rintro rfl
    exact .nil

theorem written_cons_iff {ds : List Directive} {t : SuiteToken} {tokens : List SuiteToken} :
    Written ds (t :: tokens) ↔ ∃ d rest taken others, d.Spells (t :: taken) ∧
      tokens = taken ++ others ∧ ds = d :: rest ∧ Written rest others := by
  constructor
  · generalize htokens : t :: tokens = all
    intro h
    cases h with
    | nil => cases htokens
    | @cons d rest first others hspells hrest =>
      cases first with
      | nil => cases hspells
      | cons t' taken =>
        cases htokens
        exact ⟨d, rest, taken, others, hspells, rfl, rfl, hrest⟩
  · rintro ⟨d, rest, taken, others, hspells, rfl, rfl, hrest⟩
    exact .cons hspells hrest

/-- No tokens spell two lists of directives. -/
theorem Written.unique {ds : List Directive} {tokens : List SuiteToken} (h : Written ds tokens) :
    ∀ {ds' : List Directive}, Written ds' tokens → ds = ds' := by
  induction h with
  | nil =>
    intro ds' h'
    exact (written_nil_iff.mp h').symm
  | @cons d ds first rest hspells hrest ih =>
    generalize htokens : first ++ rest = tokens
    intro ds' h'
    cases h' with
    | nil =>
      obtain ⟨rfl, -⟩ := List.append_eq_nil_iff.mp htokens
      cases hspells
    | @cons d' ds' first' rest' hspells' hrest' =>
      obtain ⟨rfl, rfl⟩ := directive_unambiguous hspells hspells' htokens
      obtain rfl := List.append_cancel_left htokens
      rw [ih hrest']

end RegexEngine.Suite
