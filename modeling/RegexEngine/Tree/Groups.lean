import RegexEngine.Tree.Basic

/-!
Numbering of groups. The capturing groups of a tree are numbered from 1 in the order in which they
open. Numeric references follow: one that named the number of a group names the same group
afterwards, the first one where several had that number. A reference to a number that no group had
stays as it is.
-/

namespace RegexEngine.Tree

def captureInfo? : Tree → Option (Nat × Option String)
  | capture index name _ => some (index, name)
  | _ => none

/-- The capturing groups of a tree, in the order in which they open. -/
def captures (tree : Tree) : List (Nat × Option String) :=
  tree.preorder.filterMap captureInfo?

mutual

/-- Numbers the capturing groups from `next` on, and answers with the number that comes after. -/
def number (next : Nat) : Tree → Tree × Nat
  | capture _ name c =>
    let (c, after) := number (next + 1) c
    (capture next name c, after)
  | group c => let (c, after) := number next c; (group c, after)
  | scope o c => let (c, after) := number next c; (scope o c, after)
  | repetition q c => let (c, after) := number next c; (repetition q c, after)
  | look k c => let (c, after) := number next c; (look k c, after)
  | atomic c => let (c, after) := number next c; (atomic c, after)
  | groupCond r y none => let (y, after) := number next y; (groupCond r y none, after)
  | groupCond r y (some n) =>
    let (y, mid) := number next y
    let (n, after) := number mid n
    (groupCond r y (some n), after)
  | lookCond k t y none =>
    let (t, mid) := number next t
    let (y, after) := number mid y
    (lookCond k t y none, after)
  | lookCond k t y (some n) =>
    let (t, first) := number next t
    let (y, second) := number first y
    let (n, after) := number second n
    (lookCond k t y (some n), after)
  | alt items => let (items, after) := numbers next items; (alt items, after)
  | concat items => let (items, after) := numbers next items; (concat items, after)
  | leaf => (leaf, next)

def numbers (next : Nat) : List Tree → List Tree × Nat
  | [] => ([], next)
  | item :: rest =>
    let (item, mid) := number next item
    let (rest, after) := numbers mid rest
    (item :: rest, after)

end

def renameRef (rename : Nat → Nat) : GroupRef → GroupRef
  | .number n => .number (rename n)
  | .name text => .name text

mutual

/-- Changes the numbers that back references and conditions name. -/
def mapRefs (rename : Nat → Nat) : Tree → Tree
  | capture i n c => capture i n (mapRefs rename c)
  | group c => group (mapRefs rename c)
  | scope o c => scope o (mapRefs rename c)
  | backref r => backref (renameRef rename r)
  | repetition q c => repetition q (mapRefs rename c)
  | look k c => look k (mapRefs rename c)
  | atomic c => atomic (mapRefs rename c)
  | groupCond r y none => groupCond (renameRef rename r) (mapRefs rename y) none
  | groupCond r y (some n) =>
    groupCond (renameRef rename r) (mapRefs rename y) (some (mapRefs rename n))
  | lookCond k t y none => lookCond k (mapRefs rename t) (mapRefs rename y) none
  | lookCond k t y (some n) =>
    lookCond k (mapRefs rename t) (mapRefs rename y) (some (mapRefs rename n))
  | alt items => alt (mapRefsAll rename items)
  | concat items => concat (mapRefsAll rename items)
  | leaf => leaf

def mapRefsAll (rename : Nat → Nat) : List Tree → List Tree
  | [] => []
  | item :: rest => mapRefs rename item :: mapRefsAll rename rest

end

/-- The new number of the groups that had the number `old`, if there were any. -/
def renumbered (indices : List Nat) (old : Nat) : Nat :=
  match indices.idxOf? old with
  | some i => i + 1
  | none => old

/-- Numbers the capturing groups from 1 in the order in which they open, and the references along
with them. -/
def renumber (tree : Tree) : Tree :=
  let indices := tree.captures.map (·.1)
  mapRefs (renumbered indices) (number 1 tree).1

def groupNames (tree : Tree) : List (Option String) := tree.captures.map (·.2)

end RegexEngine.Tree
