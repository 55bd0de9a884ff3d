import Mathlib.Order.Bounds.Defs
import RegexEngine.Automaton.State
import RegexEngine.Tree.Basic

/-!
What expressions mean. An expression matches the part of an input between two places, under the
flags in effect where it starts. Nothing is said here of how a match is found, so only regular
expressions are covered: no back references, lookarounds, conditions and verbs, and nothing that
rules out matches of its parts, as atomic groups and possessive repetitions do.

Options change the flags for what follows them, and groups put the flags back. Whether alternations
and repetitions put them back as well makes no difference to what a pattern can say, where an
alternation is all of its group and options cannot be repeated; a tree can be made that shows it.
`Reach` says which of the two is meant.

An expression has a lookaround once for each state that is made for it: what a repetition repeats is
built as often as it has to be there or may be. They are listed in the order in which the states are
made, the body of each before itself, with the flags in effect where it stands. A lookaround is
about the place that it stands at. One that looks ahead asks whether its body matches from there on,
one that looks behind whether it matches from some place up to there; assertions in the body see the
whole input.
-/

namespace RegexEngine

/-- How far options reach: through the rest of the enclosing group, or only through the rest of the
alternation or the repetition that they stand in, if that ends earlier. -/
inductive Reach
  | group | innermost
deriving DecidableEq, Repr

/-- So many copies of a relation, one after the other. -/
def Copies (R : Nat → Nat → Prop) : Nat → Nat → Nat → Prop
  | 0, i, j => i = j
  | n + 1, i, j => ∃ k, R i k ∧ Copies R n k j

/-- The character at a place is a wanted one, and the second place follows it. -/
def TakesOne (input : Array Char) (wanted : Char → Prop) (i j : Nat) : Prop :=
  ∃ c, input[i]? = some c ∧ wanted c ∧ j = i + 1

/-- The character before a place belongs to a word. -/
def WordBefore (input : Array Char) (i : Nat) : Prop :=
  0 < i ∧ ∃ c, input[i - 1]? = some c ∧ Marks.isWordChar c = true

/-- The character after a place belongs to a word. -/
def WordAfter (input : Array Char) (i : Nat) : Prop :=
  ∃ c, input[i]? = some c ∧ Marks.isWordChar c = true

namespace Anchor

/-- What an anchor says of a place, where the caret and the dollar sign speak of lines or not. -/
def HoldsAt (input : Array Char) (i : Nat) (multiline : Bool) : Anchor → Prop
  | caret => if multiline then i = 0 ∨ input[i - 1]? = some '\n' else i = 0
  | dollar =>
    if multiline then i = input.size ∨ input[i]? = some '\n'
    else i = input.size ∨ i + 1 = input.size ∧ input[i]? = some '\n'
  | inputStart => i = 0
  | inputEnd => i = input.size
  | inputEndOrNewline => i = input.size ∨ i + 1 = input.size ∧ input[i]? = some '\n'

end Anchor

namespace Tree

mutual

/-- The flags in effect after an expression. -/
def flagsAfter (reach : Reach) : Tree → Flags → Flags
  | options opts, flags => opts.apply flags
  | concat items, flags => flagsAfterAll reach items flags
  | alt items, flags =>
    match reach with
    | .group => flagsAfterAll reach items flags
    | .innermost => flags
  | repetition _ child, flags =>
    match reach with
    | .group => flagsAfter reach child flags
    | .innermost => flags
  | _, flags => flags

/-- The flags in effect after some expressions. -/
def flagsAfterAll (reach : Reach) : List Tree → Flags → Flags
  | [], flags => flags
  | item :: rest, flags => flagsAfterAll reach rest (flagsAfter reach item flags)

end

mutual

/-- An expression matches an input from one place to another, under the flags in effect where it
starts. -/
def Spans (reach : Reach) (input : Array Char) : Tree → Flags → Nat → Nat → Prop
  | empty, _, i, j => i = j
  | comment _, _, i, j => i = j
  | options _, _, i, j => i = j
  | literal c, flags, i, j =>
    TakesOne input (fun d => Text.sameChar c d (flags.contains .nocase) = true) i j
  | dot, flags, i, j => TakesOne input (fun d => flags.contains .dotAll = true ∨ d ≠ '\n') i j
  | cls _ spec, flags, i, j =>
    ∃ set, CharClass.parse spec = .ok set ∧
      TakesOne input (fun d => set.contains d (flags.contains .nocase) = true) i j
  | capture _ _ child, flags, i, j => Spans reach input child flags i j
  | group child, flags, i, j => Spans reach input child flags i j
  | scope opts child, flags, i, j => Spans reach input child (opts.apply flags) i j
  | repetition q child, flags, i, j =>
    ∃ n, q.min ≤ n ∧ (∀ max, q.max = some max → n ≤ max) ∧
      Copies (Spans reach input child flags) n i j
  | anchor a, flags, i, j => i = j ∧ a.HoldsAt input i (flags.contains .multiline)
  | boundary negated, _, i, j =>
    i = j ∧ ((WordBefore input i ↔ WordAfter input i) ↔ negated = true)
  | alt items, flags, i, j => SomeSpans reach input items flags i j
  | concat items, flags, i, j => AllSpan reach input items flags i j
  | _, _, _, _ => False

/-- Some of the alternatives matches. Each one starts with the flags that the one before it left. -/
def SomeSpans (reach : Reach) (input : Array Char) : List Tree → Flags → Nat → Nat → Prop
  | [], _, _, _ => False
  | item :: rest, flags, i, j =>
    Spans reach input item flags i j ∨
      SomeSpans reach input rest (flagsAfter reach item flags) i j

/-- The expressions match one after the other. -/
def AllSpan (reach : Reach) (input : Array Char) : List Tree → Flags → Nat → Nat → Prop
  | [], _, i, j => i = j
  | item :: rest, flags, i, j => ∃ k, Spans reach input item flags i k ∧
    AllSpan reach input rest (flagsAfter reach item flags) k j

end

mutual

/-- True for expressions whose meaning is to match parts of an input. -/
def isRegular : Tree → Bool
  | empty | comment _ | literal _ | dot | cls _ _ | anchor _ | boundary _ | options _ => true
  | capture _ _ child | group child | scope _ child => isRegular child
  | repetition q child => !q.possessive && isRegular child
  | alt items | concat items => areRegular items
  | _ => false

/-- True when all expressions are regular. -/
def areRegular : List Tree → Bool
  | [] => true
  | item :: rest => isRegular item && areRegular rest

end

end Tree

/-! The lookarounds of an expression. -/

/-- A lookaround, or the test of a condition, with the flags in effect. -/
structure Lookaround where
  kind : LookKind
  body : Tree
  flags : Flags

namespace Lookaround

/-- The body matches an input from one place to another. -/
def Spans (look : Lookaround) (input : Array Char) (i j : Nat) : Prop :=
  look.body.Spans .innermost input look.flags i j

/-- The body matches an input from a place on, or up to a place, as the lookaround looks ahead or
behind. -/
def Matches (look : Lookaround) (input : Array Char) (position : Nat) : Prop :=
  if look.kind.isBehind then ∃ i, i ≤ position ∧ look.Spans input i position
  else ∃ j, position ≤ j ∧ look.Spans input position j

/-- What a lookaround says of a place. -/
def Holds (look : Lookaround) (input : Array Char) (position : Nat) : Prop :=
  if look.kind.isNegative then ¬look.Matches input position else look.Matches input position

/-- Where the body that a lookaround has found starts: at the place itself, or at the nearest one
before it that the body matches from. -/
def StartsAt (look : Lookaround) (input : Array Char) (position i : Nat) : Prop :=
  if look.kind.isBehind then IsGreatest {i | i ≤ position ∧ look.Spans input i position} i
  else i = position

end Lookaround

/-- How often a repetition builds its expression. -/
def Quantifier.copies (q : Quantifier) : Nat :=
  match q.max with
  | none => q.min - 1 + 1
  | some max => q.min + (max - q.min)

namespace Tree

mutual

/-- The lookarounds of an expression, under the flags in effect where it starts. -/
def lookarounds : Tree → Flags → List Lookaround
  | capture _ _ child, flags => lookarounds child flags
  | group child, flags => lookarounds child flags
  | scope opts child, flags => lookarounds child (opts.apply flags)
  | repetition q child, flags => (List.replicate q.copies (lookarounds child flags)).flatten
  | look kind child, flags => lookarounds child flags ++ [⟨kind, child, flags⟩]
  | atomic child, flags => lookarounds child flags
  | groupCond _ yes none, flags => lookarounds yes flags
  | groupCond _ yes (some no), flags => lookarounds yes flags ++ lookarounds no flags
  | lookCond kind test yes none, flags =>
    lookarounds test flags ++ [⟨kind, test, flags⟩] ++ lookarounds yes flags
  | lookCond kind test yes (some no), flags =>
    lookarounds test flags ++ [⟨kind, test, flags⟩] ++ (lookarounds yes flags ++ lookarounds no flags)
  | alt items, flags => lookaroundsAll items flags
  | concat items, flags => lookaroundsAll items flags
  | _, _ => []

/-- The lookarounds of some expressions, each of which starts with the flags that the one before it
left. -/
def lookaroundsAll : List Tree → Flags → List Lookaround
  | [], _ => []
  | item :: rest, flags =>
    lookarounds item flags ++ lookaroundsAll rest (flagsAfter .innermost item flags)

end

end Tree

/-! What an expression matches never starts after its end, and is part of the input. -/

/-- A relation leads from places up to some bound to later ones up to the same bound. -/
def Advances (size : Nat) (R : Nat → Nat → Prop) : Prop :=
  ∀ i j, R i j → i ≤ size → i ≤ j ∧ j ≤ size

theorem advances_stay {size : Nat} {R : Nat → Nat → Prop} (h : ∀ i j, R i j → i = j) :
    Advances size R := by
  intro i j hij hi
  obtain rfl := h i j hij
  exact ⟨Nat.le_refl i, hi⟩

theorem advances_takesOne (input : Array Char) (wanted : Char → Prop) :
    Advances input.size (TakesOne input wanted) := by
  rintro i j ⟨c, hc, _, rfl⟩ _
  exact ⟨Nat.le_succ i, (Array.getElem?_eq_some_iff.mp hc).1⟩

theorem Advances.comp {size : Nat} {R R' : Nat → Nat → Prop} (h : Advances size R)
    (h' : Advances size R') : Advances size fun i j => ∃ k, R i k ∧ R' k j := by
  rintro i j ⟨k, hik, hkj⟩ hi
  obtain ⟨hle, hk⟩ := h i k hik hi
  obtain ⟨hle', hj⟩ := h' k j hkj hk
  exact ⟨Nat.le_trans hle hle', hj⟩

theorem Advances.copies {size : Nat} {R : Nat → Nat → Prop} (h : Advances size R) (n : Nat) :
    Advances size (Copies R n) := by
  induction n with
  | zero => exact advances_stay fun _ _ hij => hij
  | succ n ih => exact h.comp ih

namespace Tree

variable (reach : Reach) (input : Array Char)

mutual

theorem advances_spans : (t : Tree) → (flags : Flags) →
    Advances input.size (Spans reach input t flags)
  | empty, _ => advances_stay fun _ _ hij => hij
  | comment _, _ => advances_stay fun _ _ hij => hij
  | options _, _ => advances_stay fun _ _ hij => hij
  | literal _, _ => advances_takesOne input _
  | dot, _ => advances_takesOne input _
  | cls _ _, _ => fun i j ⟨_, _, htakes⟩ => advances_takesOne input _ i j htakes
  | capture _ _ child, flags => advances_spans child flags
  | group child, flags => advances_spans child flags
  | scope opts child, flags => advances_spans child (opts.apply flags)
  | repetition _ child, flags => fun i j ⟨n, _, _, hcopies⟩ =>
    (advances_spans child flags).copies n i j hcopies
  | anchor _, _ => advances_stay fun _ _ hij => hij.1
  | boundary _, _ => advances_stay fun _ _ hij => hij.1
  | alt items, flags => advances_someSpans items flags
  | concat items, flags => advances_allSpan items flags
  | invalid, _ => fun _ _ hij => hij.elim
  | backref _, _ => fun _ _ hij => hij.elim
  | look _ _, _ => fun _ _ hij => hij.elim
  | atomic _, _ => fun _ _ hij => hij.elim
  | groupCond _ _ _, _ => fun _ _ hij => hij.elim
  | lookCond _ _ _ _, _ => fun _ _ hij => hij.elim
  | verb _, _ => fun _ _ hij => hij.elim

theorem advances_someSpans : (items : List Tree) → (flags : Flags) →
    Advances input.size (SomeSpans reach input items flags)
  | [], _ => fun _ _ hij => hij.elim
  | item :: rest, flags => fun i j hij => hij.elim (advances_spans item flags i j)
      (advances_someSpans rest (flagsAfter reach item flags) i j)

theorem advances_allSpan : (items : List Tree) → (flags : Flags) →
    Advances input.size (AllSpan reach input items flags)
  | [], _ => advances_stay fun _ _ hij => hij
  | item :: rest, flags =>
    (advances_spans item flags).comp (advances_allSpan rest (flagsAfter reach item flags))

end

end Tree

end RegexEngine
