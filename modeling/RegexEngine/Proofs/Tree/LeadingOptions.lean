import RegexEngine.Proofs.Flags.Apart
import RegexEngine.Proofs.Steps
import RegexEngine.Proofs.Text
import RegexEngine.Proofs.Tree.Checked
import RegexEngine.Proofs.Tree.Lasting

/-!
Options at the very beginning of a pattern. They are read as one more expression in front of the
first alternative, and switch the form of the text before any more of it is looked at. So the rest
is read as it is without them, where the flags that they set are asked for.
-/

namespace RegexEngine

open Text (Cursor)

/-! Trees with options in front. -/

namespace Tree

/-- The second expression is the first one with options in front of what it begins with. -/
inductive Led (opts : OptionSet) : Tree → Tree → Prop
  | items (items : List Tree) : Led opts (ofList items) (ofList (.options opts :: items))
  | branches (items rest : List Tree) :
      Led opts (.alt (ofList items :: rest)) (.alt (ofList (.options opts :: items) :: rest))

theorem captures_ofList (items : List Tree) :
    (ofList items).captures = (preorders items).filterMap captureInfo? := by
  match items with
  | [] => rfl
  | [item] => simp [ofList, captures, preorders]
  | _ :: _ :: _ => rfl

theorem number_ofList (next : Nat) (items : List Tree) :
    number next (ofList items) = (ofList (numbers next items).1, (numbers next items).2) := by
  match items with
  | [] => rfl
  | [item] => simp [ofList, numbers]
  | _ :: _ :: _ => simp [ofList, numbers, number]

theorem mapRefs_ofList (rename : Nat → Nat) (items : List Tree) :
    mapRefs rename (ofList items) = ofList (mapRefsAll rename items) := by
  match items with
  | [] => rfl
  | [item] => simp [ofList, mapRefsAll]
  | _ :: _ :: _ => simp [ofList, mapRefsAll, mapRefs]

theorem Led.captures_eq {opts : OptionSet} {t t' : Tree} (h : Led opts t t') :
    t'.captures = t.captures := by
  cases h with
  | items items =>
    rw [captures_ofList, captures_ofList]
    rfl
  | branches items rest =>
    have hfirst : (ofList (.options opts :: items)).preorder.filterMap captureInfo? =
        (ofList items).preorder.filterMap captureInfo? := by
      change (ofList (.options opts :: items)).captures = (ofList items).captures
      rw [captures_ofList, captures_ofList]
      rfl
    change ((ofList (.options opts :: items)).preorder ++ preorders rest).filterMap captureInfo? =
      ((ofList items).preorder ++ preorders rest).filterMap captureInfo?
    rw [List.filterMap_append, List.filterMap_append, hfirst]

theorem depth_ofList (items : List Tree) : (ofList items).depth = depths items := by
  match items with
  | [] => rfl
  | [item] => simp [ofList, depths]
  | _ :: _ :: _ => simp [ofList, depth]

theorem Led.depth_eq {opts : OptionSet} {t t' : Tree} (h : Led opts t t') : t'.depth = t.depth := by
  have hitems (items : List Tree) :
      (ofList (.options opts :: items)).depth = (ofList items).depth := by
    rw [depth_ofList, depth_ofList]
    exact Nat.zero_max _
  cases h with
  | items items => exact hitems items
  | branches items rest => rw [depth, depth, depths, depths, hitems]

/-- Numbering the groups leaves options in front. -/
theorem Led.renumber {opts : OptionSet} {t t' : Tree} (h : Led opts t t') :
    Led opts t.renumber t'.renumber := by
  have hcaptures := h.captures_eq
  unfold Tree.renumber
  rw [hcaptures]
  generalize renumbered (t.captures.map (·.1)) = rename
  cases h with
  | items items =>
    rw [number_ofList, number_ofList, mapRefs_ofList, mapRefs_ofList]
    exact .items _
  | branches items rest =>
    simp only [number, numbers, number_ofList, mapRefs, mapRefsAll, mapRefs_ofList]
    exact .branches _ _

end Tree

/-! How the options are split off. -/

/-- The letters that stand for flags of their own in options. -/
def inlineLetters : List Char := ['i', 'm', 's', 'x', 'U']

/-- Options that switch on what some letters stand for. -/
def OptionSet.switchingOn (letters : List Char) : OptionSet := ⟨String.ofList letters, ""⟩

theorem inlineLetters_cases {c : Char} (hc : c ∈ inlineLetters) :
    c = 'i' ∨ c = 'm' ∨ c = 's' ∨ c = 'x' ∨ c = 'U' := by
  simpa [inlineLetters] using hc

/-- Flags of a whole pattern, which no letter of options stands for. -/
def wholeFlags : List Flags := [.anchored, .recovery, .strict, .optimized, .deterministic]

theorem apart_of_wholeFlags {other : Flags} (hother : other ∈ wholeFlags) {c : Char}
    (hc : c ∈ inlineLetters) {flag : Flags} (hflag : Flags.ofLetter? c = some flag) :
    flag.Apart other := by
  have hall : (inlineLetters.all fun c => wholeFlags.all fun other =>
      (Flags.ofLetter? c).all fun flag => decide (flag.Apart other)) = true := by decide
  have hapart := List.all_eq_true.mp (List.all_eq_true.mp hall c hc) other hother
  rw [hflag] at hapart
  exact of_decide_eq_true hapart

/-- A flag that no letter of options stands for is there whatever they switch on. -/
theorem contains_union_inline {letters : List Char} {more other : Flags}
    (hletters : ∀ c ∈ letters, c ∈ inlineLetters) (hmore : Flags.ofLetters letters = .ok more)
    (hother : other ∈ wholeFlags) (flags : Flags) :
    (flags.union more).contains other = flags.contains other :=
  Flags.contains_union (Flags.apart_of_letters
    (fun c hc _ => apart_of_wholeFlags hother (hletters c hc)) hmore)

/-- Options switch to the extended form if their flags ask for it. -/
theorem extended_switchingOn {letters : List Char} {more : Flags}
    (hmore : Flags.ofLetters letters = .ok more) (flags : Flags) :
    ((flags.contains .extended || (OptionSet.switchingOn letters).switchesOn 'x') &&
        !(OptionSet.switchingOn letters).switchesOff 'x') =
      (flags.union more).contains .extended := by
  have hon : (OptionSet.switchingOn letters).switchesOn 'x' = letters.contains 'x' := by
    simp only [OptionSet.switchingOn, OptionSet.switchesOn, String.toList_ofList]
  have hoff : (OptionSet.switchingOn letters).switchesOff 'x' = false := by
    simp only [OptionSet.switchingOn, OptionSet.switchesOff]
    rfl
  rw [hon, hoff, Bool.not_false, Bool.and_true, Flags.contains_extended_union hmore]

/-- A text with options in front. -/
def withOptions (letters source : List Char) : List Char :=
  '(' :: '?' :: (letters ++ ')' :: source)

theorem readOptions_letters (start : Nat) {letters : List Char}
    (h : ∀ c ∈ letters, c ∈ inlineLetters) (source : List Char) : ∀ (on : List Char) (offset : Nat),
      TokenKind.readOptions start on [] false offset (letters ++ ')' :: source) =
        (.openGroup (.options (String.ofList (on ++ letters)) "" false),
          ⟨offset + Text.byteLength (letters ++ [')']), source⟩) := by
  have hplain (c : Char) (hc : c ∈ inlineLetters) :
      (c == ')' || c == ':') = false ∧ (c == '-') = false ∧ Text.isAlphanumeric c = true := by
    rcases inlineLetters_cases hc with rfl | rfl | rfl | rfl | rfl <;> decide +kernel
  induction letters with
  | nil => exact fun on offset => by simp [TokenKind.readOptions, Text.byteLength]
  | cons c rest ih =>
    intro on offset
    obtain ⟨hc, hrest⟩ := List.forall_mem_cons.mp h
    obtain ⟨hend, hdash, hletter⟩ := hplain c hc
    have hread := ih hrest (on ++ [c]) (offset + c.utf8Size)
    rw [List.append_assoc] at hread
    simpa [TokenKind.readOptions, hend, hdash, hletter, Text.byteLength, Nat.add_assoc] using hread

theorem readQuestion_letters (start offset : Nat) {letters : List Char} (hne : letters ≠ [])
    (h : ∀ c ∈ letters, c ∈ inlineLetters) (source : List Char) :
    TokenKind.readQuestion start ⟨offset, letters ++ ')' :: source⟩ =
      (.openGroup (.options (String.ofList letters) "" false),
        ⟨offset + Text.byteLength (letters ++ [')']), source⟩) := by
  obtain ⟨c, rest, rfl⟩ := List.exists_cons_of_ne_nil hne
  have hread := readOptions_letters start h source [] offset
  rcases inlineLetters_cases (List.forall_mem_cons.mp h).1 with rfl | rfl | rfl | rfl | rfl <;>
    exact hread

theorem bodyToken_cons {l : Lexer} {cur : Cursor} {c : Char} {rest : List Char}
    (hcur : (if l.extended then skipBlanks false l.cur.offset l.cur.rest else l.cur) = cur)
    (hrest : cur.rest = c :: rest) {kind : TokenKind} {after : Cursor}
    (hread : TokenKind.read l.strict cur c = (kind, after)) :
    l.bodyToken = (⟨kind, cur.offset, after.offset⟩, { l with cur := after }) := by
  simp only [Lexer.bodyToken, hcur, hrest, hread]

/-- Byte length of options in front of a text. -/
def optionsLength (letters : List Char) : Nat :=
  0 + '('.utf8Size + '?'.utf8Size + Text.byteLength (letters ++ [')'])

theorem byteLength_withOptions (letters source : List Char) :
    Text.byteLength (withOptions letters source) =
      Text.byteLength source + optionsLength letters := by
  simp only [withOptions, optionsLength, Text.byteLength, Text.byteLength_append]
  omega

/-- The first token is the options, and the rest is left as it is. -/
theorem next_withOptions {letters : List Char} (hne : letters ≠ [])
    (h : ∀ c ∈ letters, c ∈ inlineLetters) (source : List Char) (flags : Flags) :
    ∃ token : Token, token.kind = .openGroup (.options (String.ofList letters) "" false) ∧
      (Lexer.new (withOptions letters source) flags).next = (token,
        { Lexer.new (withOptions letters source) flags with
          cur := (Cursor.start source).moved (optionsLength letters) }) := by
  have hstart : (Cursor.start source).moved (optionsLength letters) =
      ⟨optionsLength letters, source⟩ := by rw [Cursor.moved, Cursor.start, Nat.zero_add]
  have hread := readQuestion_letters 0 (0 + '('.utf8Size + '?'.utf8Size) hne h source
  have hblank : Text.isBlank '(' = false := by decide +kernel
  have hskipped : skipBlanks false 0 (withOptions letters source) =
      ⟨0, withOptions letters source⟩ := by
    simp [withOptions, skipBlanks, hblank]
  have hgroup : TokenKind.read (flags.contains .strict) ⟨0, withOptions letters source⟩ '(' =
      (.openGroup (.options (String.ofList letters) "" false),
        ⟨optionsLength letters, source⟩) := hread
  refine ⟨⟨.openGroup (.options (String.ofList letters) "" false), 0, optionsLength letters⟩, rfl,
    ?_⟩
  rw [hstart]
  have hcur : (if flags.contains .extended then skipBlanks false 0 (withOptions letters source)
      else ⟨0, withOptions letters source⟩) = ⟨0, withOptions letters source⟩ := by
    rw [hskipped, ite_self]
  exact bodyToken_cons (l := .new (withOptions letters source) flags) hcur rfl hgroup

namespace Parser

/-- A parser that has taken options which it was looking at. -/
def switched (p : Parser) (opts : OptionSet) : Parser :=
  { p with
    ahead := none
    lexer := { p.lexer with
      extended := (p.lexer.extended || opts.switchesOn 'x') && !opts.switchesOff 'x' } }

/-- Options in front are the first expression. What follows them is read in the form that they have
switched to. -/
theorem run_items_options (fuel : Nat) {p : Parser} {token : Token} {on off : String}
    (hahead : p.ahead = some token) (hkind : token.kind = .openGroup (.options on off false)) :
    (items (fuel + 3)).run p =
      (quantified (.options ⟨on, off⟩) >>= fun item => do
        let rest ← items (fuel + 2)
        pure (item :: rest)).run (p.switched ⟨on, off⟩) := by
  have hatom : (atom (fuel + 2)).run p = .ok (.options ⟨on, off⟩, p.switched ⟨on, off⟩) := by
    rw [atom, run_bind_of_ok (run_take_of_ahead hahead)]
    simp only [hkind]
    rfl
  rw [items, run_bind_of_ok (run_peek_of_ahead hahead)]
  simp only [hkind, endsBranch, Bool.false_eq_true, if_false]
  exact run_bind_of_ok hatom

theorem run_refuse {p : Parser} (h : p.recovering = false) (e : Error) :
    (refuse e).run p = .error e := by
  change (if p.recovering then _ else _ : Step Tree).run p = _
  rw [h]
  rfl

/-- A mark that repeats stands for nothing by itself. -/
theorem of_bounds? {kind : TokenKind} (h : (bounds? kind).isSome = true) :
    endsBranch kind = false ∧ leaf? kind = none ∧ kind ≠ .openCapture ∧
      (∀ opening, kind ≠ .openGroup opening) ∧ ∀ e, kind ≠ .error e := by
  cases kind <;> first | cases h; done | exact ⟨rfl, rfl, nofun, nofun, nofun⟩

/-- Where an expression is to begin, a mark that repeats is refused. -/
theorem run_atom_mark (fuel : Nat) {p : Parser} {token : Token} (hahead : p.ahead = some token)
    (hrecovering : p.recovering = false) (hbounds : (bounds? token.kind).isSome = true) :
    ∃ e, (atom (fuel + 1)).run p = .error e := by
  obtain ⟨_, hleaf, hcapture, hgroup, herror⟩ := of_bounds? hbounds
  refine ⟨PatternFault.nothingToRepeat.errorAt token.start, ?_⟩
  rw [atom, run_bind_of_ok (run_take_of_ahead hahead)]
  simp only [hleaf]
  exact run_refuse (p := { p with ahead := none }) hrecovering _

/-- There is nothing to repeat in options. -/
theorem run_quantified_options (opts : OptionSet) {p p' : Parser} {token : Token}
    (hpeek : peek.run p = .ok (token, p')) (hahead : p'.ahead = some token)
    (hrecovering : p'.recovering = false) :
    (quantified (.options opts)).run p =
      if (bounds? token.kind).isSome then .error (PatternFault.nothingToRepeat.errorAt token.start)
      else .ok (.options opts, p') := by
  rw [quantified, run_bind_of_ok hpeek]
  cases bounds? token.kind with
  | none => rfl
  | some bounds =>
    refine (run_bind_of_ok (run_take_of_ahead hahead)).trans ?_
    exact run_refuse (p := { p' with ahead := none }) hrecovering _

/-- The first expressions are the second ones after options, and the parsers are alike. -/
def Longer (n : Nat) (opts : OptionSet) (r r' : List Tree × Parser) : Prop :=
  r.1 = .options opts :: r'.1 ∧ r.2.Like n false r'.2

/-- Where expressions are to begin, a mark that repeats is refused, unless no fuel is left. -/
theorem concur_items_mark {α : Type} {same : α → List Tree × Parser → Prop} (fuel : Nat)
    {p : Parser} {token : Token} (hahead : p.ahead = some token)
    (hrecovering : p.recovering = false) (hbounds : (bounds? token.kind).isSome = true)
    (e : Error) : Concur same (.error e) ((items (fuel + 1)).run p) := by
  rw [items, run_bind_of_ok (run_peek_of_ahead hahead)]
  simp only [(of_bounds? hbounds).1, Bool.false_eq_true, if_false]
  cases fuel with
  | zero => exact .large' (.inl rfl)
  | succ fuel =>
    obtain ⟨e', he'⟩ := run_atom_mark fuel hahead hrecovering hbounds
    rw [run_bind_of_error he']
    exact .failed e e'

/-- What follows options is read as it is without them. -/
theorem concur_after_options {n : Nat} (opts : OptionSet) (fuel fuel' : Nat) {p q : Parser}
    (hlike : p.Like n false q) :
    Concur (Longer n opts)
      ((quantified (.options opts) >>= fun item => do
        let rest ← items fuel
        pure (item :: rest)).run p)
      ((items fuel').run q) := by
  cases fuel' with
  | zero => exact .large' (.inl rfl)
  | succ fuel' =>
  obtain ⟨t, u, p', q', hp, hq, hlike', hahead, hahead', hboth⟩ := hlike.peek
  have hitems : (items (fuel' + 1)).run q = (items (fuel' + 1)).run q' := by
    rw [items, run_bind_of_ok hq, run_bind_of_ok (run_peek_of_ahead hahead')]
  have hbounds : bounds? u.kind = bounds? t.kind := by
    obtain ⟨kind, _, _⟩ := t
    obtain ⟨kind', _, _⟩ := u
    rcases hboth with ⟨hkind, _, _⟩ | ⟨⟨hkind, hkind', _⟩, _⟩
    · dsimp only at hkind
      cases hkind <;> rfl
    · dsimp only at hkind hkind' ⊢
      rw [hkind']
      rcases hkind with rfl | ⟨_, rfl⟩ <;> rfl
  rw [hitems, StateT.run_bind, run_quantified_options opts hp hahead hlike'.recovering]
  cases hmark : (bounds? t.kind).isSome with
  | false =>
    rw [if_neg Bool.false_ne_true]
    change Concur _ ((items fuel >>= fun rest => pure (Tree.options opts :: rest)).run p') _
    rw [StateT.run_bind, ← bind_pure ((items (fuel' + 1)).run q')]
    refine ((displaced n false fuel (fuel' + 1)).items p' q' hlike').concur.bind ?_
    rintro ⟨read, last⟩ ⟨read', last'⟩ ⟨hread, hlast⟩
    exact .answered ⟨congrArg _ hread, hlast⟩
  | true =>
    rw [← hbounds] at hmark
    exact concur_items_mark fuel' hahead' hlike'.recovering' hmark _

/-- The first alternatives are the same apart from the options, whether or not the second parser has
looked at what it begins with. -/
theorem concur_concatenation {n : Nat} (fuel fuel' : Nat) {p q q' : Parser} {token first : Token}
    {on off : String} (hahead : p.ahead = some token)
    (hkind : token.kind = .openGroup (.options on off false))
    (hlike : (p.switched ⟨on, off⟩).Like n false q) (hq : peek.run q = .ok (first, q'))
    (hahead' : q'.ahead = some first) :
    Concur (fun r r' => (∃ items, r.1 = .ofList (.options ⟨on, off⟩ :: items) ∧
        r'.1 = .ofList items) ∧ r.2.Like n false r'.2)
      ((concatenation (fuel + 4)).run p) ((concatenation fuel').run q') := by
  match fuel' with
  | 0 => exact .large' (.inl rfl)
  | 1 => exact .large' (.inl rfl)
  | fuel' + 2 =>
    have hpeeked : (items (fuel' + 1)).run q' = (items (fuel' + 1)).run q := by
      rw [items, run_bind_of_ok hq, run_bind_of_ok (run_peek_of_ahead hahead')]
    rw [concatenation, concatenation, StateT.run_bind, StateT.run_bind, hpeeked,
      run_items_options fuel hahead hkind]
    refine (concur_after_options ⟨on, off⟩ (fuel + 2) (fuel' + 1) hlike).bind ?_
    rintro ⟨_, last⟩ ⟨items, last'⟩ ⟨hitems, hlast⟩
    obtain rfl : _ = Tree.options ⟨on, off⟩ :: items := hitems
    exact .answered ⟨⟨items, rfl, rfl⟩, hlast⟩

/-- Alternatives with options in front are the same alternatives with options in front of the first
of them. -/
theorem concur_alternation {n : Nat} (fuel fuel' : Nat) {p q : Parser} {token : Token} {on off : String}
    (hahead : p.ahead = some token) (hkind : token.kind = .openGroup (.options on off false))
    (hlike : (p.switched ⟨on, off⟩).Like n false q) :
    Concur (fun r r' => Tree.Led ⟨on, off⟩ r'.1.1 r.1.1 ∧ r.2.Like n false r'.2)
      ((alternation (fuel + 5)).run p) ((alternation fuel').run q) := by
  cases fuel' with
  | zero => exact .large' (.inl rfl)
  | succ fuel' =>
    obtain ⟨first, q', hq, hahead'⟩ := exists_peek q
    rw [alternation, alternation, run_bind_of_ok (run_peek_of_ahead hahead), run_bind_of_ok hq,
      StateT.run_bind, StateT.run_bind]
    refine (concur_concatenation fuel fuel' hahead hkind hlike hq hahead').bind ?_
    rintro ⟨_, p₁⟩ ⟨_, q₁⟩ ⟨⟨items, hread, hread'⟩, hlike₁⟩
    dsimp only at hread hread' hlike₁
    subst hread hread'
    refine Concur.bind
      ((displaced n false (fuel + 4) fuel').moreBranches _ _ p₁ q₁ hlike₁).concur ?_
    rintro ⟨⟨rest, spans⟩, p₂⟩ ⟨⟨rest', spans'⟩, q₂⟩ ⟨⟨hrest, _⟩, hlike₂⟩
    dsimp only at hrest hlike₂
    subst hrest
    cases rest with
    | nil => exact .answered ⟨.items items, hlike₂⟩
    | cons branch rest => exact .answered ⟨.branches items (branch :: rest), hlike₂⟩

/-! Whole patterns. -/

/-- The first token of a text with options in front is the options. After them the text goes on like
one of its own with the flags that they set. -/
theorem peek_withOptions {letters source : List Char} {flags more : Flags} (maxDepth : Nat)
    (hne : letters ≠ []) (hletters : ∀ c ∈ letters, c ∈ inlineLetters)
    (hmore : Flags.ofLetters letters = .ok more) (hraw : RawLiteral.isRaw source = false)
    (hrecovery : flags.contains .recovery = false) :
    ∃ token p, peek.run (start (withOptions letters source) flags maxDepth) = .ok (token, p) ∧
      p.ahead = some token ∧ token.kind = .openGroup (.options (String.ofList letters) "" false) ∧
        (p.switched (.switchingOn letters)).Like (optionsLength letters) false
          (start source (flags.union more) maxDepth) := by
  obtain ⟨token, hkind, hnext⟩ := next_withOptions hne hletters source flags
  have hrecovery' : (flags.union more).contains .recovery = false :=
    (contains_union_inline hletters hmore (by simp [wholeFlags]) flags).trans hrecovery
  have hstrict : (flags.union more).contains .strict = flags.contains .strict :=
    contains_union_inline hletters hmore (by simp [wholeFlags]) flags
  have hphase : (Lexer.new source (flags.union more)).phase = .body := by
    rw [Lexer.new, hraw]
    rfl
  refine ⟨token, { start (withOptions letters source) flags maxDepth with
    lexer := { Lexer.new (withOptions letters source) flags with
      cur := (Cursor.start source).moved (optionsLength letters) }
    ahead := some token }, ?_, rfl, hkind, ?_⟩
  · rw [run_peek]
    change Except.ok ((Lexer.new (withOptions letters source) flags).next.1, _) = _
    rw [start, hnext]
  · have hextended := extended_switchingOn hmore flags
    exact ⟨.before ⟨rfl, rfl, hphase, rfl, byteLength_withOptions letters source, hextended,
      hstrict.symm⟩, hextended, hrecovery, hrecovery', rfl, rfl, rfl, .nil⟩

end Parser

namespace SyntaxTree

/-- The second tree is the first one with options in front, and without the flags that they set. -/
structure Led (opts : OptionSet) (more : Flags) (plain led : SyntaxTree) : Prop where
  root : Tree.Led opts plain.root led.root
  groups : led.groups = plain.groups
  flags : plain.flags = led.flags.union more

theorem Led.of_root {opts : OptionSet} {t t' : Tree} (h : Tree.Led opts t t') (flags more : Flags)
    (raw raw' : Bool) (spans spans' : List (Nat × Nat)) (passed passed' : List Error) :
    Led opts more
      { ofTree t ((flags.union more).union .empty) with
        raw := raw, alternatives := spans, recovered := passed }
      { ofTree t' (flags.union .empty) with
        raw := raw', alternatives := spans', recovered := passed' } where
  root := h.renumber
  groups := by
    change t'.renumber.groupNames = t.renumber.groupNames
    rw [Tree.groupNames, h.renumber.captures_eq]
    rfl
  flags := Flags.union_right_comm ..

end SyntaxTree

namespace Parser

theorem concur_pattern {letters source : List Char} {flags more : Flags} (maxDepth fuel fuel' : Nat)
    (hne : letters ≠ []) (hletters : ∀ c ∈ letters, c ∈ inlineLetters)
    (hmore : Flags.ofLetters letters = .ok more) (hraw : RawLiteral.isRaw source = false)
    (hrecovery : flags.contains .recovery = false) :
    Concur (fun r r' => SyntaxTree.Led (.switchingOn letters) more r'.1 r.1)
      ((pattern flags (fuel + 5)).run (start (withOptions letters source) flags maxDepth))
      ((pattern (flags.union more) (fuel' + 1)).run
        (start source (flags.union more) maxDepth)) := by
  obtain ⟨token, p, hpeek, hahead, hkind, hlike⟩ :=
    peek_withOptions maxDepth hne hletters hmore hraw hrecovery
  obtain ⟨first, q, hpeek', hahead'⟩ := exists_peek (start source (flags.union more) maxDepth)
  have hfirst : first.kind ≠ .rawMark := by
    obtain ⟨_, _, _, _, _, hpeeked, _, _, _, hboth⟩ := hlike.peek
    cases hpeek'.symm.trans hpeeked
    rcases hboth with htoken | ⟨hend, _⟩
    · exact htoken.kind.ne_rawMark
    · simp [hend.kind']
  rw [pattern, pattern, run_bind_of_ok (run_opening hpeek (by simp [hkind])),
    run_bind_of_ok (run_opening hpeek' hfirst), StateT.run_bind, StateT.run_bind,
    run_alternation_peeked fuel' hpeek' hahead']
  refine (concur_alternation fuel (fuel' + 1) hahead hkind hlike).bind ?_
  rintro ⟨read, p₁⟩ ⟨read', q₁⟩ ⟨hled, hlike₁⟩
  dsimp only at hled hlike₁
  rw [StateT.run_bind, StateT.run_bind]
  have hremainder := coincide_remainder (fuel + 5) (fuel' + 1)
    (fun r r' => Tree.Led (.switchingOn letters) r'.1 r.1) (fun h => absurd h Bool.false_ne_true)
    (fuel + 5) (fuel' + 1) read read' hled p₁ q₁ hlike₁
  refine hremainder.concur.bind ?_
  rintro ⟨_, p₂⟩ ⟨_, q₂⟩ ⟨hroot, _⟩
  exact .answered (.of_root hroot flags more _ _ _ _ _ _)

end Parser

namespace SyntaxTree

/-- With options in front, a text is read as it is without them where the flags that they set are
asked for. Only the options are in front of the tree, too. -/
theorem concur_parse {letters source : List Char} {flags more : Flags} (maxDepth : Nat)
    (hne : letters ≠ []) (hletters : ∀ c ∈ letters, c ∈ inlineLetters)
    (hmore : Flags.ofLetters letters = .ok more) (hraw : RawLiteral.isRaw source = false)
    (hrecovery : flags.contains .recovery = false) :
    Concur (fun led plain => Led (.switchingOn letters) more plain led)
      (parse (withOptions letters source) flags maxDepth)
      (parse source (flags.union more) maxDepth) := by
  rw [parse_of_isRaw_false rfl, parse_of_isRaw_false hraw]
  refine Concur.bind (Parser.concur_pattern maxDepth _ _ hne hletters hmore hraw hrecovery) ?_
  exact fun _ _ hled => .answered hled

/-! Whether what was read can be compiled. -/

section

variable {tree tree' : SyntaxTree} {opts : OptionSet} {on off more : Flags}

/-- An expression that is always fine, and no group with a name, is passed. -/
theorem checkNodes_cons_of_ok {node : Tree} (h : ∀ seen, checkNode tree seen node = .ok ())
    (hname : nameOf? node = none) (seen : List String) (rest : List Tree) :
    checkNodes tree seen (node :: rest) = checkNodes tree seen rest := by
  rw [checkNodes, h, hname]
  rfl

theorem checkNodes_ofList (seen : List String) (items : List Tree) (rest : List Tree) :
    checkNodes tree seen ((Tree.ofList items).preorder ++ rest) =
      checkNodes tree seen (Tree.preorders items ++ rest) := by
  match items with
  | [] => exact checkNodes_cons_of_ok (fun _ => rfl) rfl seen rest
  | [item] => rw [Tree.ofList, Tree.preorders, Tree.preorders, List.append_nil]
  | first :: second :: others =>
    have hnode (seen : List String) :
        checkNode tree seen (.concat (first :: second :: others)) = .ok () := rfl
    exact checkNodes_cons_of_ok hnode rfl seen _

/-- Options whose letters stand for flags are passed. -/
theorem checkNodes_options (h : opts.flags = .ok (on, off)) (seen : List String)
    (items rest : List Tree) :
    checkNodes tree seen ((Tree.ofList (.options opts :: items)).preorder ++ rest) =
      checkNodes tree seen ((Tree.ofList items).preorder ++ rest) := by
  have hnode (seen : List String) : checkNode tree seen (.options opts) = .ok () := by
    rw [checkNode, checkOptions, h]
  rw [checkNodes_ofList, checkNodes_ofList]
  exact checkNodes_cons_of_ok hnode rfl seen _

/-- Options in front make no difference to whether a tree can be compiled. -/
theorem Led.validate_eq (h : Led opts more tree tree') (hopts : opts.flags = .ok (on, off))
    (hstrict : tree'.flags.contains .strict = tree.flags.contains .strict) (maxDepth : Nat) :
    tree'.validate maxDepth = tree.validate maxDepth := by
  have hnodes : checkNodes tree' [] tree'.root.preorder =
      checkNodes tree [] tree.root.preorder := by
    rw [checkNodes_congr h.groups hstrict]
    have hroot := h.root
    generalize tree.root = root at hroot
    generalize tree'.root = root' at hroot
    cases hroot with
    | items items =>
      have hitems : tree.checkNodes [] ((Tree.ofList (.options opts :: items)).preorder ++ []) =
          tree.checkNodes [] ((Tree.ofList items).preorder ++ []) :=
        checkNodes_options hopts [] items []
      rwa [List.append_nil, List.append_nil] at hitems
    | branches items rest => exact checkNodes_options hopts [] items (Tree.preorders rest)
  unfold validate
  rw [hnodes, h.root.depth_eq]

end

end SyntaxTree

end RegexEngine
