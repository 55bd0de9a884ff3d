import RegexEngine.Tree.Groups
import RegexEngine.Tree.Printer

/-!
A pattern as it was read: its expression, the flags in effect, the names of its groups, and what is
known of its text. The groups of the expression are numbered in order.
-/

namespace RegexEngine

def defaultMaxDepth : Nat := 1000

/-- A pattern as it was read. -/
structure SyntaxTree where
  root : Tree
  flags : Flags
  /-- True when the pattern was written as a raw literal. -/
  raw : Bool
  /-- The name of each capturing group that has one. -/
  groups : List (Option String)
  /-- Bytes of the pattern that the alternatives at the top take, if there are several. -/
  alternatives : List (Nat × Nat)
  /-- Errors that were passed over. -/
  recovered : List Error

namespace SyntaxTree

/-- A tree that was made by hand. Its groups are numbered anew. -/
def ofTree (root : Tree) (flags : Flags) : SyntaxTree :=
  let root := root.renumber
  ⟨root, flags, false, root.groupNames, [], []⟩

def groupCount (tree : SyntaxTree) : Nat := tree.groups.length

def indexOfName? (groups : List (Option String)) (name : String) : Option Nat :=
  (groups.idxOf? (some name)).map (· + 1)

def groupIndex? (tree : SyntaxTree) (name : String) : Option Nat :=
  indexOfName? tree.groups name

end SyntaxTree

end RegexEngine
