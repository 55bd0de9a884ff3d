import RegexEngine.Text.Basic
import RegexEngine.Text.Unicode

/-!
Sets of characters as lists of inclusive ranges of code points. A list built by `ofPairs` is in
normal form: its ranges are sorted, do not touch each other and leave out the surrogates, which are
no characters. Union and complement keep the normal form, so that two sets are the same exactly when
their lists are. A set can be written as text that reads back as the same set.
-/

namespace RegexEngine

def maxCodePoint : Nat := 0x10FFFF

def charOfCode? (n : Nat) : Option Char :=
  if n < 0xD800 ∨ (0xDFFF < n ∧ n ≤ maxCodePoint) then some (Char.ofNat n) else none

/-- Characters that mean something of their own somewhere in a pattern. -/
def isMeta (c : Char) : Bool :=
  "\\.+*?()|[]\x7b\x7d^$#&-~/'\" :<>=!,".toList.contains c

/-- Writes a character so that a pattern and a bracket expression both read it as itself. -/
def escapeChar (c : Char) : List Char :=
  match c with
  | '\n' => ['\\', 'n']
  | '\t' => ['\\', 't']
  | '\r' => ['\\', 'r']
  | c =>
    if Text.isControl c || (c.toNat > 0x7E && !Text.isAlphanumeric c) then
      "\\x\x7b".toList ++ Nat.toDigits 16 c.toNat ++ ['}']
    else if isMeta c then ['\\', c]
    else [c]

/-- A set of code points, as a list of inclusive ranges. -/
structure CharRanges where
  pairs : List (Nat × Nat)
deriving DecidableEq, Repr, Inhabited

namespace CharRanges

def empty : CharRanges := ⟨[]⟩

/-- Joins a range with those of a sorted list that follow it, wherever two overlap or touch. -/
def mergeFrom (lo hi : Nat) : List (Nat × Nat) → List (Nat × Nat)
  | [] => [(lo, hi)]
  | (next, last) :: rest =>
    if next ≤ hi + 1 then mergeFrom lo (max hi last) rest else (lo, hi) :: mergeFrom next last rest

def mergeSorted : List (Nat × Nat) → List (Nat × Nat)
  | [] => []
  | (lo, hi) :: rest => mergeFrom lo hi rest

def withoutSurrogates : Nat × Nat → List (Nat × Nat)
  | (lo, hi) =>
    if hi < 0xD800 ∨ 0xDFFF < lo then [(lo, hi)]
    else
      (if lo < 0xD800 then [(lo, 0xD7FF)] else []) ++ (if 0xDFFF < hi then [(0xE000, hi)] else [])

def precedes (a b : Nat × Nat) : Bool :=
  a.1 < b.1 || (a.1 == b.1 && a.2 ≤ b.2)

/-- The set of the code points between the ends of some pair. A pair whose ends are out of order
holds none. -/
def ofPairs (pairs : List (Nat × Nat)) : CharRanges :=
  let kept := pairs.filter fun (lo, hi) => lo ≤ hi
  ⟨(mergeSorted (kept.mergeSort precedes)).flatMap withoutSurrogates⟩

def single (c : Char) : CharRanges := ⟨[(c.toNat, c.toNat)]⟩

def all : CharRanges := ofPairs [(0, maxCodePoint)]

def isEmpty (r : CharRanges) : Bool := r.pairs.isEmpty

def containsCode (r : CharRanges) (n : Nat) : Bool := Text.inRanges r.pairs n

/-- Looks for a range that holds a code point among those from the place `first` up to the place
`after`. Ranges in ascending order can be halved: on one side of the middle one, none holds it. -/
def search (ranges : Array (Nat × Nat)) (n first after : Nat) : Bool :=
  if first < after then
    match ranges[first + (after - first) / 2]? with
    | some (lo, hi) =>
      if hi < n then search ranges n (first + (after - first) / 2 + 1) after
      else if n < lo then search ranges n first (first + (after - first) / 2)
      else true
    | none => false
  else false
termination_by after - first

def contains (r : CharRanges) (c : Char) : Bool :=
  search r.pairs.toArray c.toNat 0 r.pairs.length

def union (a b : CharRanges) : CharRanges := ofPairs (a.pairs ++ b.pairs)

/-- The gaps of a sorted list of ranges, from a code point up to the largest one. Code points are
words of 32 bits, so nothing comes after the largest word but the first code point again. -/
def gaps (next : Nat) : List (Nat × Nat) → List (Nat × Nat)
  | [] => if next ≤ maxCodePoint then [(next, maxCodePoint)] else []
  | (lo, hi) :: rest =>
    (if next < lo then [(next, lo - 1)] else []) ++ gaps ((hi + 1) % 0x100000000) rest

def negate (r : CharRanges) : CharRanges := ofPairs (gaps 0 r.pairs)

/-- Writes one range of a bracket expression. A range whose ends are no characters is left out. -/
def rangeText : Nat × Nat → List Char
  | (lo, hi) =>
    match charOfCode? lo, charOfCode? hi with
    | some first, some last =>
      if lo = hi then escapeChar first else escapeChar first ++ '-' :: escapeChar last
    | _, _ => []

def bracketText (r : CharRanges) : List Char :=
  '[' :: r.pairs.flatMap rangeText ++ [']']

def singleton? (r : CharRanges) : Option Char :=
  match r.pairs with
  | [(lo, hi)] => if lo = hi then charOfCode? lo else none
  | _ => none

/-- Writes the set as the text of a class. A set of one character is written as that character. -/
def spec (r : CharRanges) : String :=
  String.ofList (match r.singleton? with
    | some c => escapeChar c
    | none => r.bracketText)

end CharRanges

end RegexEngine
