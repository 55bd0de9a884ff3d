import RegexEngine.Tree.Basic
import RegexEngine.CharRanges

/-!
Writing trees as patterns. Groups are added around what a repetition applies to, around alternatives
inside a concatenation, and around a back reference by number that a digit follows. The digit has to
be the whole next expression: one that is repeated becomes a part of the number.
-/

namespace RegexEngine

def decimal (n : Nat) : List Char := Nat.toDigits 10 n

namespace Quantifier

/-- The mark of a repetition, followed by the marks of laziness and of possession. -/
def chars (q : Quantifier) : List Char :=
  let counts := match q.min, q.max with
    | 0, none => ['*']
    | 1, none => ['+']
    | 0, some 1 => ['?']
    | min, none => '{' :: decimal min ++ [',', '}']
    | min, some max =>
      if min = max then '{' :: decimal min ++ ['}']
      else '{' :: decimal min ++ ',' :: decimal max ++ ['}']
  counts ++ (if q.greedy then [] else ['?']) ++ (if q.possessive then ['+'] else [])

end Quantifier

def OptionSet.chars (o : OptionSet) : List Char :=
  o.on.toList ++ (if o.off.isEmpty then [] else '-' :: o.off.toList)

def Anchor.chars : Anchor → List Char
  | caret => ['^']
  | dollar => ['$']
  | inputStart => ['\\', 'A']
  | inputEnd => ['\\', 'z']
  | inputEndOrNewline => ['\\', 'Z']

/-- What a condition looks at, in parentheses. -/
def GroupRef.condition : GroupRef → List Char
  | number n => '(' :: decimal n ++ [')']
  | name text => '(' :: '<' :: text.toList ++ ['>', ')']

def GroupRef.backref : GroupRef → List Char
  | number n => '\\' :: decimal n
  | name text => ['\\', 'k', '<'] ++ text.toList ++ ['>']

namespace Tree

/-- True for expressions that a repetition can follow directly. -/
def standsAlone : Tree → Bool
  | literal _ | dot | cls .. | capture .. | group _ | scope .. | backref _ | look .. | atomic _
  | groupCond .. | lookCond .. => true
  | _ => false

/-- True when an expression needs a group in a concatenation before `next`. -/
def needsGroup (item : Tree) (next : Option Tree) : Bool :=
  match item, next with
  | alt _, _ => true
  | backref (.number _), some (literal c) => Text.isDigit c
  | _, _ => false

def grouped (wanted : Bool) (inner : List Char) : List Char :=
  if wanted then ['(', '?', ':'] ++ inner ++ [')'] else inner

mutual

def chars : Tree → List Char
  | empty => []
  | invalid => "(*FAIL)".toList
  | literal c => escapeChar c
  | dot => ['.']
  | cls _ spec => spec.toList
  | capture _ none child => '(' :: chars child ++ [')']
  | capture _ (some name) child => "(?P<".toList ++ name.toList ++ '>' :: chars child ++ [')']
  | group child => "(?:".toList ++ chars child ++ [')']
  | scope opts child => "(?".toList ++ opts.chars ++ ':' :: chars child ++ [')']
  | backref ref => ref.backref
  | repetition q child => grouped (!child.standsAlone) (chars child) ++ q.chars
  | anchor a => a.chars
  | boundary negated => ['\\', if negated then 'B' else 'b']
  | look kind child => '(' :: kind.opening.toList ++ chars child ++ [')']
  | atomic child => "(?>".toList ++ chars child ++ [')']
  | comment text => "(?#".toList ++ text.toList ++ [')']
  | options opts => "(?".toList ++ opts.chars ++ [')']
  | groupCond ref yes none => "(?".toList ++ ref.condition ++ chars yes ++ [')']
  | groupCond ref yes (some no) =>
    "(?".toList ++ ref.condition ++ chars yes ++ '|' :: chars no ++ [')']
  | lookCond kind test yes none =>
    "(?(".toList ++ kind.opening.toList ++ chars test ++ ')' :: chars yes ++ [')']
  | lookCond kind test yes (some no) =>
    "(?(".toList ++ kind.opening.toList ++ chars test ++ ')' :: chars yes ++
      '|' :: chars no ++ [')']
  | verb v => "(*".toList ++ v.name.toList ++ [')']
  | alt items => altChars items
  | concat items => concatChars items

def altChars : List Tree → List Char
  | [] => []
  | [item] => chars item
  | item :: next :: rest => chars item ++ '|' :: altChars (next :: rest)

def concatChars : List Tree → List Char
  | [] => []
  | item :: rest => grouped (item.needsGroup rest.head?) (chars item) ++ concatChars rest

end

def text (tree : Tree) : String := String.ofList tree.chars

end Tree

end RegexEngine
