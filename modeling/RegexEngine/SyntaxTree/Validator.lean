import RegexEngine.SyntaxTree.Basic
import RegexEngine.CharClass.Parser

/-!
Rules that the grammar does not express: references name groups that exist, names of groups are well
formed and differ, option letters are known, classes can be read, bounds of repetitions are in
order, no assertion is repeated, and the nesting is bounded. The first expression that breaks a rule
gives the error, in the order in which expressions open.
-/

namespace RegexEngine.SyntaxTree

def nameFault? (name : List Char) : Option NameFault :=
  match name with
  | [] => some .emptyName
  | c :: _ =>
    if Text.isDigit c then some .leadingDigit
    else if name.all fun c => c == '_' || Text.isAlphanumeric c then none
    else some .badCharacter

/-- True for an assertion, also inside plain groups. -/
def repeatsAssertion : Tree → Bool
  | .group child => repeatsAssertion child
  | child => child.isAssertion

def require (holds : Bool) (fault : PatternFault) : Except Error Unit :=
  if holds then .ok () else .error fault.error

def hasGroup (tree : SyntaxTree) (n : Nat) : Bool := 0 < n && n ≤ tree.groupCount

def hasName (tree : SyntaxTree) (name : String) : Bool := (tree.groupIndex? name).isSome

def checkOptions (opts : OptionSet) : Except Error Unit :=
  match opts.flags with
  | .ok _ => .ok ()
  | .error c => .error (PatternFault.unknownOption c).error

def checkName (seen : List String) (name : String) : Except Error Unit := do
  match nameFault? name.toList with
  | some fault => .error (PatternFault.badGroupName name fault).error
  | none => require (!seen.contains name) (.duplicateGroup name)

/-- Checks one expression. `seen` has the names of the groups that opened before. -/
def checkNode (tree : SyntaxTree) (seen : List String) : Tree → Except Error Unit
  | .capture _ (some name) _ => checkName seen name
  | .scope opts _ => checkOptions opts
  | .options opts => checkOptions opts
  | .backref (.number n) => require (tree.hasGroup n) (.badBackref n tree.groupCount)
  | .backref (.name name) => require (tree.hasName name) (.undefinedBackref name)
  | .groupCond (.number n) _ _ => require (tree.hasGroup n) (.conditionOnGroup n)
  | .groupCond (.name name) _ _ => require (tree.hasName name) (.conditionOnName name)
  | .repetition q child => do
    require (!repeatsAssertion child) .quantifiedAssertion
    require (!q.max.any (· < q.min)) .reversedRepetition
  | .cls _ spec => do
    let _ ← CharClass.parseWith (tree.flags.contains .strict) spec.toList
  | _ => .ok ()

/-- The name that an expression adds to those seen. -/
def nameOf? : Tree → Option String
  | .capture _ name _ => name
  | _ => none

def checkNodes (tree : SyntaxTree) (seen : List String) : List Tree → Except Error Unit
  | [] => .ok ()
  | node :: rest => do
    checkNode tree seen node
    checkNodes tree ((nameOf? node).toList ++ seen) rest

def validate (tree : SyntaxTree) (maxDepth : Nat) : Except Error Unit := do
  let depth := tree.root.depth
  if maxDepth < depth then .error (LimitFault.treeNesting depth maxDepth).error
  else checkNodes tree [] tree.root.preorder

end RegexEngine.SyntaxTree
