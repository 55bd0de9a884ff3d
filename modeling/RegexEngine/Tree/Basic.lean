import RegexEngine.Token.Basic
import RegexEngine.Flags

/-!
Expressions. A tree keeps a pattern close to what was written: options stand in it as nodes, and a
repetition remembers how it was marked. What both mean under the flags in effect is decided when the
tree is compiled.
-/

namespace RegexEngine

/-- How a class was written. -/
inductive ClassKind
  | bracket | posix | perl | property
deriving DecidableEq, Repr

structure OptionSet where
  on : String
  off : String
deriving DecidableEq, Repr

namespace OptionSet

/-- The flags of the letters, or the first letter that stands for none. -/
def flags (o : OptionSet) : Except Char (Flags × Flags) := do
  let on ← Flags.ofLetters o.on.toList
  let off ← Flags.ofLetters o.off.toList
  pure (on, off)

/-- Changes flags as the options say. Unknown letters make the options mean nothing. -/
def apply (o : OptionSet) (flags : Flags) : Flags :=
  match o.flags with
  | .ok (on, off) => (flags.union on).without off
  | .error _ => flags

def switchesOn (o : OptionSet) (c : Char) : Bool := o.on.toList.contains c

def switchesOff (o : OptionSet) (c : Char) : Bool := o.off.toList.contains c

end OptionSet

inductive Anchor
  | caret | dollar | inputStart | inputEnd | inputEndOrNewline
deriving DecidableEq, Repr

/-- How often and how eagerly an expression is repeated. Without a maximum there is no bound. -/
structure Quantifier where
  min : Nat
  max : Option Nat
  greedy : Bool
  possessive : Bool
deriving DecidableEq, Repr

inductive Tree
  /-- Matches the empty text. -/
  | empty
  /-- Stands for a part of a pattern that could not be read. It never matches. -/
  | invalid
  | literal (c : Char)
  | dot
  | cls (kind : ClassKind) (spec : String)
  | capture (index : Nat) (name : Option String) (child : Tree)
  | group (child : Tree)
  /-- A group with options of its own. -/
  | scope (opts : OptionSet) (child : Tree)
  | backref (ref : GroupRef)
  | repetition (q : Quantifier) (child : Tree)
  | anchor (a : Anchor)
  | boundary (negated : Bool)
  | look (kind : LookKind) (child : Tree)
  | atomic (child : Tree)
  | comment (text : String)
  /-- Options for the rest of the enclosing group. -/
  | options (opts : OptionSet)
  /-- Goes on with one of two branches, as a group has matched or not. -/
  | groupCond (ref : GroupRef) (yes : Tree) (no : Option Tree)
  /-- Goes on with one of two branches, as a lookaround holds or not. -/
  | lookCond (kind : LookKind) (test yes : Tree) (no : Option Tree)
  | verb (v : Verb)
  /-- Alternatives, tried from left to right. -/
  | alt (items : List Tree)
  | concat (items : List Tree)
deriving Inhabited

namespace Tree

/-- The tree of a text, one literal for each character. -/
def ofText (text : List Char) : Tree :=
  match text with
  | [] => empty
  | [c] => literal c
  | text => concat (text.map literal)

/-- The tree of a class, of the kind that its text tells. -/
def ofClass (spec : String) : Tree :=
  let kind := match spec.toList with
    | '\\' :: 'p' :: _ | '\\' :: 'P' :: _ => ClassKind.property
    | '\\' :: _ => .perl
    | _ => .bracket
  cls kind spec

/-- A concatenation of expressions, as short as it can be. -/
def ofList : List Tree → Tree
  | [] => empty
  | [item] => item
  | items => concat items

/-- True for assertions: anchors, word boundaries and lookarounds. -/
def isAssertion : Tree → Bool
  | anchor _ | boundary _ | look _ _ => true
  | _ => false

def isNesting : Tree → Bool
  | capture .. | group _ | scope .. | repetition .. | look .. | atomic _ => true
  | groupCond .. | lookCond .. => true
  | _ => false

mutual

/-- All expressions of a tree, each before those inside it. -/
def preorder : Tree → List Tree
  | capture i n c => capture i n c :: preorder c
  | group c => group c :: preorder c
  | scope o c => scope o c :: preorder c
  | repetition q c => repetition q c :: preorder c
  | look k c => look k c :: preorder c
  | atomic c => atomic c :: preorder c
  | groupCond r y none => groupCond r y none :: preorder y
  | groupCond r y (some n) => groupCond r y (some n) :: (preorder y ++ preorder n)
  | lookCond k t y none => lookCond k t y none :: (preorder t ++ preorder y)
  | lookCond k t y (some n) => lookCond k t y (some n) :: (preorder t ++ preorder y ++ preorder n)
  | alt items => alt items :: preorders items
  | concat items => concat items :: preorders items
  | leaf => [leaf]

def preorders : List Tree → List Tree
  | [] => []
  | item :: rest => preorder item ++ preorders rest

end

mutual

/-- The greatest number of nested groups, repetitions, lookarounds and conditions. -/
def depth : Tree → Nat
  | capture _ _ c | group c | scope _ c | repetition _ c | look _ c | atomic c => depth c + 1
  | groupCond _ y none => depth y + 1
  | groupCond _ y (some n) => max (depth y) (depth n) + 1
  | lookCond _ t y none => max (depth t) (depth y) + 1
  | lookCond _ t y (some n) => max (depth t) (max (depth y) (depth n)) + 1
  | alt items | concat items => depths items
  | _ => 0

def depths : List Tree → Nat
  | [] => 0
  | item :: rest => max (depth item) (depths rest)

end

mutual

def same : Tree → Tree → Bool
  | empty, empty | invalid, invalid | dot, dot => true
  | literal a, literal b => a == b
  | cls k s, cls k' s' => k == k' && s == s'
  | capture i n c, capture i' n' c' => i == i' && n == n' && same c c'
  | group c, group c' => same c c'
  | scope o c, scope o' c' => o == o' && same c c'
  | backref r, backref r' => r == r'
  | repetition q c, repetition q' c' => q == q' && same c c'
  | anchor a, anchor b => a == b
  | boundary a, boundary b => a == b
  | look k c, look k' c' => k == k' && same c c'
  | atomic c, atomic c' => same c c'
  | comment a, comment b => a == b
  | options o, options o' => o == o'
  | groupCond r y none, groupCond r' y' none => r == r' && same y y'
  | groupCond r y (some n), groupCond r' y' (some n') => r == r' && same y y' && same n n'
  | lookCond k t y none, lookCond k' t' y' none => k == k' && same t t' && same y y'
  | lookCond k t y (some n), lookCond k' t' y' (some n') =>
    k == k' && same t t' && same y y' && same n n'
  | verb v, verb v' => v == v'
  | alt xs, alt ys => sames xs ys
  | concat xs, concat ys => sames xs ys
  | _, _ => false

def sames : List Tree → List Tree → Bool
  | [], [] => true
  | x :: xs, y :: ys => same x y && sames xs ys
  | _, _ => false

end

instance : BEq Tree := ⟨same⟩

end Tree

end RegexEngine
