import RegexEngine.Proofs.Automaton.Repetitions
import RegexEngine.SyntaxTree.Validator

/-!
The automaton of a regular expression accepts what the expression matches. The fragment of every
expression realizes its meaning under the flags in effect, by induction on the expression; options
reach as far as the construction lets them, which is not beyond the alternation or the repetition
that they stand in.
-/

namespace RegexEngine

namespace Tree

/-- What the check of an expression says about its meaning: a repetition is possible, and a class
can be read. -/
def HasMeaning : Tree → Prop
  | repetition q _ => ∀ max, q.max = some max → q.min ≤ max
  | cls _ spec => ∃ set, CharClass.parse spec = .ok set
  | _ => True

end Tree

namespace Blueprint

open Automaton RegexEngine.Tree

variable {input : Array Char} {build : Step Fragment} {L L' : Flags → Nat → Nat → Prop}
  {next : Flags → Flags}

theorem builds_congr (h : Builds input build L next)
    (hL : ∀ flags i j, L flags i j ↔ L' flags i j) : Builds input build L' next := by
  have heq : L = L' := by
    funext flags i j
    exact propext (hL flags i j)
  exact heq ▸ h

theorem takesOne_congr {wanted wanted' : Char → Prop} (h : ∀ c, wanted c ↔ wanted' c) (i j : Nat) :
    TakesOne input wanted i j ↔ TakesOne input wanted' i j :=
  exists_congr fun c => and_congr_right fun _ => and_congr_left fun _ => h c

theorem builds_literal (input : Array Char) (c : Char) :
    Builds input (fragment (.literal c)) (Spans .innermost input (.literal c)) id :=
  builds_flags? fun flags => builds_consuming (Matcher.parse_literal (flags.contains .nocase) c)

theorem builds_dot (input : Array Char) :
    Builds input (fragment .dot) (Spans .innermost input .dot) id := by
  refine builds_flags? fun flags => ?_
  have hline : Matcher.parse ['.'] = .ok (.any false) := by decide
  have hall : Matcher.parse (Matcher.dotAllMark ++ ['.']) = .ok (.any true) := by decide
  by_cases hdotAll : flags.contains .dotAll = true
  · rw [if_pos hdotAll]
    refine builds_congr (builds_consuming hall) fun _ => takesOne_congr fun c => ?_
    simp [Matcher.matchesChar, hdotAll]
  · rw [if_neg hdotAll]
    refine builds_congr (builds_consuming hline) fun _ => takesOne_congr fun c => ?_
    simp [Matcher.matchesChar, hdotAll]

theorem builds_cls (input : Array Char) (kind : ClassKind) {spec : String} {set : CharClass}
    (h : CharClass.parse spec = .ok set) :
    Builds input (fragment (.cls kind spec)) (Spans .innermost input (.cls kind spec)) id := by
  refine builds_flags? fun flags => ?_
  refine builds_congr (builds_consuming (Matcher.parse_cls (flags.contains .nocase) h)) ?_
  intro _ i j
  rw [Spans]
  constructor
  · exact fun htakes => ⟨set, h, htakes⟩
  · rintro ⟨other, hother, htakes⟩
    cases h.symm.trans hother
    exact htakes

/-- The fragment of an anchor. -/
theorem builds_anchor (input : Array Char) (a : Anchor) :
    Builds input (fragment (.anchor a)) (Spans .innermost input (.anchor a)) id :=
  builds_flags? fun flags => builds_marked (fun _ hi => (holdAt_anchorMarks hi flags a).mp)
    fun _ hholds => (holdAt_anchorMarks hholds.le_size flags a).mpr hholds

theorem builds_boundary (input : Array Char) (negated : Bool) :
    Builds input (fragment (.boundary negated)) (Spans .innermost input (.boundary negated)) id :=
  builds_marked (fun i _ => (holdAt_boundaryMarks input i negated).mp)
    fun i => (holdAt_boundaryMarks input i negated).mpr

/-- Options change the flags and match nothing. -/
theorem builds_options (input : Array Char) (opts : OptionSet) :
    Builds input (fragment (.options opts)) (Spans .innermost input (.options opts))
      opts.apply := by
  intro p loose Known hsite
  have hmodified : Yields (modify fun p => { p with flags := opts.apply p.flags }) p
      fun _ p' => p' = { p with flags := opts.apply p.flags } := yields_modify rfl
  refine yields_bind hmodified fun _ p' hp => ?_
  subst hp
  exact builds_skip input _ loose Known hsite

/-- Options at the start of a group hold in it. -/
theorem builds_scope (h : Builds input build L next) (opts : OptionSet) :
    Builds input (keepingFlags do
      modify fun p => { p with flags := opts.apply p.flags }
      build) (fun flags => L (opts.apply flags)) id := by
  have hscope : Builds input (do
      modify fun p => { p with flags := opts.apply p.flags }
      build) (fun flags => L (opts.apply flags)) fun flags => next (opts.apply flags) := by
    intro p loose Known hsite
    have hmodified : Yields (modify fun p => { p with flags := opts.apply p.flags }) p
        fun _ p' => p' = { p with flags := opts.apply p.flags } := yields_modify rfl
    refine yields_bind hmodified fun _ p' hp => ?_
    subst hp
    exact h _ loose Known hsite
  exact builds_keepingFlags hscope

/-- A step adds alternatives between two states. The first state leads to them, after what it leads
to already, and each of them leads to the second one. -/
def Offers (input : Array Char) (add : Nat → Nat → Step Unit) (L : Flags → Nat → Nat → Prop)
    (next : Flags → Flags) : Prop :=
  ∀ (p : Blueprint) (start stop : Nat) (starts : List Nat) (loose : List (Nat × List Transition))
    (Known : Automaton → Prop),
    Site p.automaton ((stop, []) :: (start, starts.map (passing start)) :: loose) Known →
    Yields (add start stop) p fun _ p' => p'.flags = next p.flags ∧ ∃ more : List Nat,
      Site p'.automaton ((stop, []) :: (start, (starts ++ more).map (passing start)) :: loose)
        fun a => Known a ∧ a.Bridge input more stop (L p.flags)

theorem offers_nothing (input : Array Char) :
    Offers input (fun start stop => alternatives start stop [])
      (SomeSpans .innermost input []) (flagsAfterAll .innermost []) := by
  intro p start stop starts loose Known hsite
  refine yields_pure ⟨rfl, [], ?_⟩
  rw [List.append_nil]
  exact hsite.mono fun a hknown => ⟨hknown, .nothing a input stop⟩

/-- One more alternative comes before the others, which start with the flags that it leaves. -/
theorem offers_cons {item : Tree} {rest : List Tree}
    (hitem : Builds input (fragment item) (Spans .innermost input item)
      (flagsAfter .innermost item))
    (hrest : Offers input (fun start stop => alternatives start stop rest)
      (SomeSpans .innermost input rest) (flagsAfterAll .innermost rest)) :
    Offers input (fun start stop => alternatives start stop (item :: rest))
      (SomeSpans .innermost input (item :: rest)) (flagsAfterAll .innermost (item :: rest)) := by
  intro p start stop starts loose Known hsite
  refine yields_bind (hitem p _ _ hsite) fun inner p₁ ⟨hflags₁, hsite₁⟩ => ?_
  refine yields_bind (yields_join [(inner.stop, []), (stop, [])] hsite₁ inner.start)
    fun _ p₂ ⟨hflags₂, hsite₂⟩ => ?_
  refine yields_bind (yields_join [] hsite₂ stop) fun _ p₃ ⟨hflags₃, hsite₃⟩ => ?_
  have hstarts : starts.map (passing start) ++ [passing start inner.start] =
      (starts ++ [inner.start]).map (passing start) := by
    rw [List.map_append]
    rfl
  have hflags : p₃.flags = flagsAfter .innermost item p.flags :=
    hflags₃.trans (hflags₂.trans hflags₁)
  have hsite₄ := hsite₃.finish []
  rw [hstarts] at hsite₄
  intro v p₄ hrun
  obtain ⟨hflags₄, more, hsite₅⟩ :=
    hrest p₃ start stop (starts ++ [inner.start]) loose _ hsite₄ v p₄ hrun
  rw [hflags] at hflags₄ hsite₅
  rw [List.append_assoc] at hsite₅
  refine ⟨hflags₄, [inner.start] ++ more, hsite₅.mono fun a ⟨⟨⟨hknown, hinner⟩, hjoin⟩, hmore⟩ => ?_⟩
  have hmapped : a.HasExits inner.stop ([stop].map (passing inner.stop)) := hjoin
  have hway := hinner.bridge.trans (Bridge.enter hmapped (.refl a input stop))
  refine ⟨hknown, (hway.append hmore).congr fun i j => or_congr_left ?_⟩
  constructor
  · rintro ⟨k, hik, _, rfl⟩
    exact hik
  · exact fun hij => ⟨j, hij, hinner.opens i j hij, rfl⟩

/-- Alternatives with a state in front of them and a state after them. -/
theorem builds_alt {items : List Tree}
    (h : Offers input (fun start stop => alternatives start stop items)
      (SomeSpans .innermost input items) (flagsAfterAll .innermost items)) :
    Builds input (fragment (.alt items)) (Spans .innermost input (.alt items)) id := by
  have hbuild : Builds input (do
      let start ← newState
      let stop ← newState
      alternatives start stop items
      pure ⟨start, stop⟩) (SomeSpans .innermost input items)
      (flagsAfterAll .innermost items) := by
    intro p loose Known hsite
    refine yields_bind (yields_newState hsite) fun start p₁ ⟨hflags₁, hsite₁⟩ => ?_
    refine yields_bind (yields_newState hsite₁) fun stop p₂ ⟨hflags₂, hsite₂⟩ => ?_
    have hflags : p₂.flags = p.flags := hflags₂.trans hflags₁
    refine yields_bind (h p₂ start stop [] loose _ hsite₂) fun _ p₃ ⟨hflags₃, more, hsite₃⟩ => ?_
    rw [hflags] at hflags₃ hsite₃
    refine yields_pure ⟨hflags₃, (hsite₃.finish [(stop, [])]).mono fun a ha => ?_⟩
    obtain ⟨⟨⟨⟨hknown, hstart⟩, hstop⟩, hmore⟩, hexits⟩ := ha
    refine ⟨hknown, (Bridge.enter hexits hmore).congr fun i j => ?_, fun _ j _ => hstop input j⟩
    exact and_iff_right (hstart input i)
  exact builds_keepingFlags hbuild

/-- A step appends something to a fragment. -/
def Appends (input : Array Char) (append : Fragment → Step Fragment)
    (L : Flags → Nat → Nat → Prop) (next : Flags → Flags) : Prop :=
  ∀ (p : Blueprint) (before : Fragment) (loose : List (Nat × List Transition))
    (Known : Automaton → Prop) (K : Nat → Nat → Prop),
    Site p.automaton ((before.stop, []) :: loose) Known →
    (∀ a, Known a → a.Realizes input before K) →
    Yields (append before) p fun f p' => p'.flags = next p.flags ∧
      Site p'.automaton ((f.stop, []) :: loose) fun a =>
        Known a ∧ a.Realizes input f fun i j => ∃ k, K i k ∧ L p.flags k j

theorem appends_nothing (input : Array Char) :
    Appends input (sequel · []) (AllSpan .innermost input [])
      (flagsAfterAll .innermost []) := by
  intro p before loose Known K hsite hbefore
  refine yields_pure ⟨rfl, hsite.mono fun a hknown => ⟨hknown, ?_⟩⟩
  exact (hbefore a hknown).congr fun i j => by simp [AllSpan]

theorem appends_cons {item : Tree} {rest : List Tree}
    (hitem : Builds input (fragment item) (Spans .innermost input item)
      (flagsAfter .innermost item))
    (hrest : Appends input (sequel · rest) (AllSpan .innermost input rest)
      (flagsAfterAll .innermost rest)) :
    Appends input (sequel · (item :: rest)) (AllSpan .innermost input (item :: rest))
      (flagsAfterAll .innermost (item :: rest)) := by
  intro p before loose Known K hsite hbefore
  refine yields_bind (hitem p _ _ hsite) fun inner p₁ ⟨hflags₁, hsite₁⟩ => ?_
  refine yields_bind (yields_join [(inner.stop, [])] hsite₁ inner.start)
    fun _ p₂ ⟨hflags₂, hsite₂⟩ => ?_
  have hmore : ∀ a, ((Known a ∧ a.Realizes input inner (Spans .innermost input item p.flags)) ∧
      a.HasExits before.stop [passing before.stop inner.start]) →
        a.Realizes input ⟨before.start, inner.stop⟩
          fun i j => ∃ k, K i k ∧ Spans .innermost input item p.flags k j :=
    fun a ha => (hbefore a ha.1.1).join ha.2 ha.1.2
  have hflags : p₂.flags = flagsAfter .innermost item p.flags := hflags₂.trans hflags₁
  intro f p₃ hrun
  obtain ⟨hflags₃, hsite₃⟩ :=
    hrest p₂ ⟨before.start, inner.stop⟩ loose _ _ (hsite₂.finish [(inner.stop, [])]) hmore f p₃ hrun
  rw [hflags] at hflags₃ hsite₃
  refine ⟨hflags₃, hsite₃.mono fun a ha => ⟨ha.1.1.1, ha.2.congr fun i j => ?_⟩⟩
  constructor
  · rintro ⟨l, ⟨k, hik, hkl⟩, hlj⟩
    exact ⟨k, hik, l, hkl, hlj⟩
  · rintro ⟨k, hik, l, hkl, hlj⟩
    exact ⟨l, ⟨k, hik, hkl⟩, hlj⟩

/-- Expressions one after the other. -/
theorem builds_concat {item : Tree} {rest : List Tree}
    (hitem : Builds input (fragment item) (Spans .innermost input item)
      (flagsAfter .innermost item))
    (hrest : Appends input (sequel · rest) (AllSpan .innermost input rest)
      (flagsAfterAll .innermost rest)) :
    Builds input (fragment (.concat (item :: rest)))
      (Spans .innermost input (.concat (item :: rest)))
      (flagsAfter .innermost (.concat (item :: rest))) := by
  intro p loose Known hsite
  refine yields_bind (hitem p _ _ hsite) fun first p₁ ⟨hflags₁, hsite₁⟩ => ?_
  intro f p₂ hrun
  obtain ⟨hflags₂, hsite₂⟩ := hrest p₁ first loose _ _ hsite₁ (fun _ ha => ha.2) f p₂ hrun
  rw [hflags₁] at hflags₂ hsite₂
  exact ⟨hflags₂, hsite₂.mono fun a ha => ⟨ha.1.1, ha.2⟩⟩

mutual

/-- The fragment of a regular expression realizes its meaning. -/
theorem builds_fragment (input : Array Char) : (t : Tree) → t.isRegular = true →
    (∀ node ∈ t.preorder, node.HasMeaning) →
      Builds input (fragment t) (Spans .innermost input t) (flagsAfter .innermost t)
  | .empty, _, _ => builds_skip input
  | .comment _, _, _ => builds_skip input
  | .literal c, _, _ => builds_literal input c
  | .dot, _, _ => builds_dot input
  | .cls kind spec, _, hmeaning => by
    obtain ⟨set, hset⟩ := hmeaning (.cls kind spec) List.mem_cons_self
    exact builds_cls input kind hset
  | .anchor a, _, _ => builds_anchor input a
  | .boundary negated, _, _ => builds_boundary input negated
  | .options opts, _, _ => builds_options input opts
  | .capture index name child, hregular, hmeaning =>
    builds_keepingFlags (builds_captured
      (builds_fragment input child hregular fun node hnode =>
        hmeaning node (List.mem_cons_of_mem _ hnode)) index name)
  | .group child, hregular, hmeaning =>
    builds_keepingFlags (builds_fragment input child hregular fun node hnode =>
      hmeaning node (List.mem_cons_of_mem _ hnode))
  | .scope opts child, hregular, hmeaning =>
    builds_scope (builds_fragment input child hregular fun node hnode =>
      hmeaning node (List.mem_cons_of_mem _ hnode)) opts
  | .repetition q child, hregular, hmeaning => by
    have hchild : (!q.possessive && child.isRegular) = true := hregular
    rw [Bool.and_eq_true, Bool.not_eq_true'] at hchild
    exact builds_quantified (builds_fragment input child hchild.2 fun node hnode =>
      hmeaning node (List.mem_cons_of_mem _ hnode)) hchild.1
        (hmeaning (.repetition q child) List.mem_cons_self)
  | .alt items, hregular, hmeaning =>
    builds_alt (offers_alternatives input items hregular fun node hnode =>
      hmeaning node (List.mem_cons_of_mem _ hnode))
  | .concat [], _, _ => builds_skip input
  | .concat (item :: rest), hregular, hmeaning => by
    have hall : (item.isRegular && areRegular rest) = true := hregular
    rw [Bool.and_eq_true] at hall
    refine builds_concat (builds_fragment input item hall.1 fun node hnode => ?_)
      (appends_sequel input rest hall.2 fun node hnode => ?_)
    · exact hmeaning node (List.mem_cons_of_mem _ (List.mem_append_left _ hnode))
    · exact hmeaning node (List.mem_cons_of_mem _ (List.mem_append_right _ hnode))
  | .invalid, hregular, _ => nomatch hregular
  | .backref _, hregular, _ => nomatch hregular
  | .look _ _, hregular, _ => nomatch hregular
  | .atomic _, hregular, _ => nomatch hregular
  | .groupCond _ _ _, hregular, _ => nomatch hregular
  | .lookCond _ _ _ _, hregular, _ => nomatch hregular
  | .verb _, hregular, _ => nomatch hregular

/-- Alternatives are offered in order. -/
theorem offers_alternatives (input : Array Char) : (items : List Tree) →
    areRegular items = true → (∀ node ∈ preorders items, node.HasMeaning) →
      Offers input (fun start stop => alternatives start stop items)
        (SomeSpans .innermost input items) (flagsAfterAll .innermost items)
  | [], _, _ => offers_nothing input
  | item :: rest, hregular, hmeaning => by
    have hall : (item.isRegular && areRegular rest) = true := hregular
    rw [Bool.and_eq_true] at hall
    refine offers_cons (builds_fragment input item hall.1 fun node hnode => ?_)
      (offers_alternatives input rest hall.2 fun node hnode => ?_)
    · exact hmeaning node (List.mem_append_left _ hnode)
    · exact hmeaning node (List.mem_append_right _ hnode)

/-- Expressions are appended in order. -/
theorem appends_sequel (input : Array Char) : (items : List Tree) →
    areRegular items = true → (∀ node ∈ preorders items, node.HasMeaning) →
      Appends input (sequel · items) (AllSpan .innermost input items)
        (flagsAfterAll .innermost items)
  | [], _, _ => appends_nothing input
  | item :: rest, hregular, hmeaning => by
    have hall : (item.isRegular && areRegular rest) = true := hregular
    rw [Bool.and_eq_true] at hall
    refine appends_cons (builds_fragment input item hall.1 fun node hnode => ?_)
      (appends_sequel input rest hall.2 fun node hnode => ?_)
    · exact hmeaning node (List.mem_append_left _ hnode)
    · exact hmeaning node (List.mem_append_right _ hnode)

end

/-- A run that is in an accepting state without transitions ends there. -/
theorem wins_last_iff {a : Automaton} {s : Nat} {state : State} (hstate : a.states[s]? = some state)
    (haccepting : state.accepting = true) (htransitions : state.transitions = [])
    (hplain : IsPlain a s) (i : Nat) : a.Wins input s i ↔ i = input.size := by
  constructor
  · rintro ⟨n, hn⟩
    cases hn with
    | accept => rfl
    | pass _ ht _ => simp [epsilonTargets, hstate, State.epsilonTargets, htransitions] at ht
    | take _ _ ht _ => simp [targetsOn, hstate, htransitions] at ht
  · rintro rfl
    exact ⟨0, .accept (hplain input _) hstate haccepting⟩

/-- The automaton of a regular expression accepts the inputs that the expression matches. -/
theorem yields_whole (input : Array Char) {root : Tree} (hregular : root.isRegular = true)
    (hmeaning : ∀ node ∈ root.preorder, node.HasMeaning) (p : Blueprint) :
    Yields (whole root) p fun f p' => ∀ a : Automaton, a.states = p'.automaton.states →
      a.initial = some f.start →
        (a.accepts input = true ↔ root.Spans .innermost input p.flags 0 input.size) := by
  have hsite : Site p.automaton [] fun _ => True :=
    ⟨List.nodup_nil, by simp, by simp, fun _ _ => trivial⟩
  refine yields_bind (builds_fragment input root hregular hmeaning p [] _ hsite)
    fun inner p₁ ⟨_, hsite₁⟩ => ?_
  refine yields_bind (yields_newState hsite₁) fun stop p₂ ⟨_, hsite₂⟩ => ?_
  refine yields_bind (yields_join [(stop, [])] hsite₂ stop) fun _ p₃ ⟨_, hsite₃⟩ => ?_
  have hsite₄ := hsite₃.finish [(stop, [])]
  intro f p₄ hrun a hstates hinitial
  cases hrun
  obtain ⟨state, hstate, haccepting, htransitions⟩ := hsite₄.exits (stop, []) (by simp)
  have hget (k : Nat) : a.states[k]? = if stop = k then
      (p₃.automaton.states[k]?).map (fun s => { s with accepting := true })
        else p₃.automaton.states[k]? := by
    rw [hstates]
    exact Array.getElem?_modify
  have hlast : a.states[stop]? = some { state with accepting := true } := by
    rw [hget, if_pos rfl, hstate]
    rfl
  have hcompletes : a.Completes p₃.automaton [stop] := by
    intro k s hs
    by_cases hk : stop = k
    · subst hk
      refine ⟨{ s with accepting := true }, ?_, ⟨rfl, fun _ _ => rfl⟩, ?_⟩
      · rw [hget, if_pos rfl, hs]
        rfl
      · exact fun hmem => absurd (List.mem_singleton_self stop) hmem
    · exact ⟨s, by rw [hget, if_neg hk, hs], ⟨rfl, fun _ _ => rfl⟩, fun _ => rfl⟩
  obtain ⟨⟨⟨_, hinner⟩, hplain⟩, hexits⟩ := hsite₄.known a hcompletes
  have hbridge := (hinner.join hexits (hplain.realizes input)).bridge
  rw [accepts_iff]
  constructor
  · rintro ⟨s, hs, n, hn⟩
    rw [hinitial] at hs
    cases hs
    obtain ⟨j, m, _, ⟨k, hk, rfl⟩, hend⟩ := hbridge.sound n _ 0 (List.mem_singleton_self _) hn
    obtain rfl := (wins_last_iff hlast rfl htransitions hplain k).mp ⟨m, hend⟩
    exact hk
  · intro hspans
    have hend : a.Wins input stop input.size :=
      (wins_last_iff hlast rfl htransitions hplain input.size).mpr rfl
    obtain ⟨s, hs, hwins⟩ := hbridge.complete 0 input.size ⟨_, hspans, rfl⟩ hend
    obtain rfl := List.mem_singleton.mp hs
    exact ⟨_, hinitial, hwins⟩

end Blueprint

namespace SyntaxTree

/-- Expressions that pass their check have a meaning. -/
theorem hasMeaning_of_checkNodes (tree : SyntaxTree) {nodes : List Tree} {seen : List String}
    (h : tree.checkNodes seen nodes = .ok ()) : ∀ node ∈ nodes, node.HasMeaning := by
  induction nodes generalizing seen with
  | nil => simp
  | cons node rest ih =>
    obtain ⟨⟨⟩, hnode, hrest⟩ := bind_eq_ok.mp h
    intro other hother
    rcases List.mem_cons.mp hother with rfl | hother
    · cases other with
      | repetition q child =>
        obtain ⟨_, _, hbounds⟩ := bind_eq_ok.mp hnode
        unfold require at hbounds
        split at hbounds
        · rename_i hholds
          intro max hmax
          rw [hmax] at hholds
          simpa using hholds
        · cases hbounds
      | cls kind spec =>
        obtain ⟨set, hset, _⟩ := bind_eq_ok.mp hnode
        exact ⟨set, CharClass.parseWith_of_strict hset⟩
      | _ => trivial
    · exact ih hrest other hother

theorem hasMeaning_of_validate {tree : SyntaxTree} {maxDepth : Nat}
    (h : tree.validate maxDepth = .ok ()) : ∀ node ∈ tree.root.preorder, node.HasMeaning := by
  unfold validate at h
  dsimp only at h
  split at h
  · cases h
  · exact tree.hasMeaning_of_checkNodes h

end SyntaxTree

namespace Automaton

theorem run_ofTree (tree : SyntaxTree) (maxStates : Nat) (base : UInt32) :
    (ofTree tree maxStates).run base =
      let (made, p) := (Blueprint.whole tree.root).run
        ⟨.empty .nfa, base, tree.flags, tree.groups, maxStates⟩
      (made.map fun inner => { p.automaton with
        initial := some inner.start, current := some inner.start, flags := tree.flags },
        p.nextId) := rfl

/-- The automaton of a tree is what was built for its root, with the first state as the initial one.
-/
theorem ofTree_run {tree : SyntaxTree} {maxStates : Nat} {base nextId : UInt32} {a : Automaton}
    (hrun : (ofTree tree maxStates).run base = (.ok a, nextId)) :
    ∃ f p', (Blueprint.whole tree.root).run
        ⟨.empty .nfa, base, tree.flags, tree.groups, maxStates⟩ = (.ok f, p') ∧
      a.states = p'.automaton.states ∧ a.initial = some f.start := by
  rw [run_ofTree] at hrun
  cases hwhole : (Blueprint.whole tree.root).run
      ⟨.empty .nfa, base, tree.flags, tree.groups, maxStates⟩ with
  | mk made p =>
    rw [hwhole] at hrun
    cases made with
    | error e => cases hrun
    | ok f =>
      cases hrun
      exact ⟨f, p, rfl, rfl, rfl⟩

/-- The automaton of a regular expression that passed its check accepts exactly the inputs that the
expression matches as a whole. -/
theorem ofTree_accepts_iff {tree : SyntaxTree} {maxDepth maxStates : Nat} {base nextId : UInt32}
    {a : Automaton} (hregular : tree.root.isRegular = true)
    (hvalid : tree.validate maxDepth = .ok ())
    (hrun : (ofTree tree maxStates).run base = (.ok a, nextId)) (input : Array Char) :
    a.accepts input = true ↔ tree.root.Spans .innermost input tree.flags 0 input.size := by
  obtain ⟨f, p', hwhole, hstates, hinitial⟩ := ofTree_run hrun
  have hmeaning := SyntaxTree.hasMeaning_of_validate hvalid
  exact Blueprint.yields_whole input hregular hmeaning _ f p' hwhole a hstates hinitial

/-- Options in an alternation that is not all of its group, and a letter after it. -/
private def strayOptions : SyntaxTree :=
  ⟨.concat [.alt [.options ⟨"i", ""⟩, .literal 'b'], .literal 'a'], .empty, false, [], [], []⟩

private theorem run_ofTree_strayOptions :
    ∃ a nextId, (ofTree strayOptions 100).run 0 = (.ok a, nextId) := by
  have hok : ((ofTree strayOptions 100).run 0).1.isOk = true := by decide +kernel
  obtain ⟨a, ha⟩ := exists_of_isOk hok
  exact ⟨a, _, Prod.ext ha rfl⟩

theorem ofTree_accepts_iff_strayOptions :
    strayOptions.validate 10 = .ok () ∧ ∃ a nextId,
      (ofTree strayOptions 100).run 0 = (.ok a, nextId) ∧ ∀ input,
        (a.accepts input = true ↔
          strayOptions.root.Spans .innermost input strayOptions.flags 0 input.size) := by
  obtain ⟨a, nextId, hrun⟩ := run_ofTree_strayOptions
  have hvalid : strayOptions.validate 10 = .ok () := rfl
  exact ⟨hvalid, a, nextId, hrun, ofTree_accepts_iff rfl hvalid hrun⟩

/-- Options do not reach beyond the alternation that they stand in, though the enclosing group goes
on after it. -/
theorem ofTree_keeps_options_in_alternation :
    strayOptions.root.isRegular = true ∧ strayOptions.validate 10 = .ok () ∧
      strayOptions.root.Spans .group #['A'] strayOptions.flags 0 1 ∧ ∃ a nextId,
        (ofTree strayOptions 100).run 0 = (.ok a, nextId) ∧ a.accepts #['A'] = false := by
  obtain ⟨a, nextId, hrun⟩ := run_ofTree_strayOptions
  have hvalid : strayOptions.validate 10 = .ok () := rfl
  refine ⟨rfl, hvalid, ⟨0, .inl rfl, 1, ⟨'A', rfl, by decide, rfl⟩, rfl⟩, a, nextId, hrun, ?_⟩
  obtain ⟨f, p', hwhole, hstates, hinitial⟩ := ofTree_run hrun
  have haccepts := Blueprint.yields_whole #['A'] rfl (SyntaxTree.hasMeaning_of_validate hvalid)
    _ f p' hwhole a hstates hinitial
  rw [← Bool.not_eq_true, haccepts]
  rintro ⟨k, hfirst, l, ⟨c, hc, hsame, rfl⟩, hend⟩
  have hk : k = 0 := Nat.succ.inj hend
  subst hk
  cases hc
  exact absurd hsame (by decide)

end Automaton

end RegexEngine
