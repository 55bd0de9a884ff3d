import RegexEngine.SyntaxTree.Basic
import RegexEngine.Token.Lexer

/-!
Reading patterns. The parser asks the lexer for one token at a time and looks at most one token
ahead. It stops at the first error, unless errors are to be passed over: then each error is recorded
and the part of the pattern that it spoils becomes an expression that never matches. Groups that are
nested too deeply, and raw literals without an end, are errors in any case.

The functions that call each other share a fuel. Each call spends one unit, and a unit for each of
the eight calls that a character may cause is enough.
-/

namespace RegexEngine

structure Parser where
  lexer : Lexer
  /-- The token that was looked at and not yet taken. -/
  ahead : Option Token
  /-- True when errors are passed over. -/
  recovering : Bool
  maxDepth : Nat
  depth : Nat
  groupCount : Nat
  /-- Errors that were passed over, the last one first. -/
  passed : List Error

namespace Parser

abbrev Step (α : Type) := StateT Parser (Except Error) α

def peek : Step Token := do
  let p ← get
  match p.ahead with
  | some token => pure token
  | none =>
    let (token, lexer) := p.lexer.next
    set { p with lexer := lexer, ahead := some token }
    pure token

def take : Step Token := do
  let token ← peek
  modify fun p => { p with ahead := none }
  pure token

/-- Records an error and goes on with an expression that never matches, or stops. -/
def refuse (e : Error) : Step Tree := do
  let p ← get
  if p.recovering then
    set { p with passed := e :: p.passed }
    pure .invalid
  else throw e

/-- Switches the extended form as options say. -/
def applyToLexer (opts : OptionSet) : Step Unit :=
  modify fun p =>
    let extended := p.lexer.extended || opts.switchesOn 'x'
    { p with lexer := { p.lexer with extended := extended && !opts.switchesOff 'x' } }

def endsBranch : TokenKind → Bool
  | .pipe | .close | .eof | .rawClose _ | .rawModifiers _ => true
  | _ => false

def bounds? : TokenKind → Option (Nat × Option Nat)
  | .star => some (0, none)
  | .plus => some (1, none)
  | .question => some (0, some 1)
  | .counted min max => some (min, max)
  | _ => none

/-- True for expressions that a repetition has nothing to repeat in. -/
def isUnrepeatable : Tree → Bool
  | .empty | .comment _ | .options _ | .verb _ => true
  | _ => false

/-- True for brackets around one named class. -/
def isSinglePosix (spec : List Char) : Bool :=
  match (Text.strip? "[[:".toList spec).map List.reverse with
  | some reversed =>
    match Text.strip? "]]:".toList reversed with
    | some name => !name.contains ':' && !name.contains '['
    | none => false
  | none => false

def perlLetter : PerlClass → Bool → Char
  | .digit, negated => if negated then 'D' else 'd'
  | .word, negated => if negated then 'W' else 'w'
  | .space, negated => if negated then 'S' else 's'

def ofAssertion : Assertion → Tree
  | .inputStart => .anchor .inputStart
  | .inputEnd => .anchor .inputEnd
  | .inputEndOrNewline => .anchor .inputEndOrNewline
  | .wordBoundary => .boundary false
  | .notWordBoundary => .boundary true

/-- The expression of a token that stands for one by itself. -/
def leaf? : TokenKind → Option Tree
  | .char c => some (.literal c)
  | .dot => some .dot
  | .perl name negated => some (.cls .perl (String.ofList ['\\', perlLetter name negated]))
  | .property spec => some (.cls .property spec)
  | .bracket spec =>
    some (.cls (if isSinglePosix spec.toList then .posix else .bracket) spec)
  | .caret => some (.anchor .caret)
  | .dollar => some (.anchor .dollar)
  | .assertion a => some (ofAssertion a)
  | .backref n => some (.backref (.number n))
  | .namedBackref name => some (.backref (.name name))
  | .comment text => some (.comment text)
  | .verb v => some (.verb v)
  | _ => none

/-- Takes the mark after a repetition: lazy, possessive or none. -/
def suffix (min : Nat) (max : Option Nat) : Step Quantifier := do
  match (← peek).kind with
  | .question => do let _ ← take; pure ⟨min, max, false, false⟩
  | .plus => do let _ ← take; pure ⟨min, max, true, true⟩
  | _ => pure ⟨min, max, true, false⟩

/-- Takes what may follow an expression: the mark of a repetition. -/
def quantified (atom : Tree) : Step Tree := do
  match bounds? (← peek).kind with
  | none => pure atom
  | some (min, max) =>
    let mark ← take
    if isUnrepeatable atom then refuse (PatternFault.nothingToRepeat.errorAt mark.start)
    else
      let q ← suffix min max
      if (bounds? (← peek).kind).isSome then
        let extra ← take
        let _ ← refuse (PatternFault.nestedQuantifier.errorAt extra.start)
      pure (.repetition q atom)

def branches (start : Nat) : Tree → Step (Tree × Option Tree)
  | .alt [yes, no] => pure (yes, some no)
  | .alt (yes :: no :: _) => do
    let _ ← refuse (PatternFault.tooManyBranches.errorAt start)
    pure (yes, some no)
  | body => pure (body, none)

/-- Enters a group, unless too many are open. -/
def enter (start : Nat) : Step Unit := do
  let p ← get
  if p.maxDepth ≤ p.depth then throw (Error.at_ (LimitFault.groupNesting p.maxDepth).error start)
  else set { p with depth := p.depth + 1 }

/-- Leaves a group whose closing parenthesis is due. The form of the text around it comes back. -/
def leave (start : Nat) (extended : Bool) : Step Unit := do
  if (← peek).kind = .close then
    let _ ← take
  else
    let _ ← refuse (PatternFault.missingParenthesis.errorAt start)
  modify fun p => { p with depth := p.depth - 1, lexer := { p.lexer with extended := extended } }

def nextGroup : Step Nat :=
  modifyGet fun p => (p.groupCount + 1, { p with groupCount := p.groupCount + 1 })

/-- What is said of a pattern that outlasts its fuel, which none does. -/
def exhausted {α : Type} : Step α := do
  let p ← get
  throw (LimitFault.groupNesting p.maxDepth).error

mutual

/-- Reads alternatives, and the bytes that each of them takes if there are several. -/
def alternation : Nat → Step (Tree × List (Nat × Nat))
  | 0 => exhausted
  | fuel + 1 => do
    let start := (← peek).start
    let first ← concatenation fuel
    match ← moreBranches fuel start with
    | ([], _) => pure (first, [])
    | (rest, spans) => pure (.alt (first :: rest), spans)

/-- Reads the alternatives after one that starts at an offset. -/
def moreBranches : Nat → Nat → Step (List Tree × List (Nat × Nat))
  | 0, _ => exhausted
  | fuel + 1, start => do
    let token ← peek
    if token.kind = .pipe then
      let _ ← take
      let branch ← concatenation fuel
      let (rest, spans) ← moreBranches fuel token.stop
      pure (branch :: rest, (start, token.start) :: spans)
    else pure ([], [(start, token.start)])

/-- Reads expressions up to the end of an alternative. -/
def concatenation : Nat → Step Tree
  | 0 => exhausted
  | fuel + 1 => do pure (.ofList (← items fuel))

def items : Nat → Step (List Tree)
  | 0 => exhausted
  | fuel + 1 => do
    if endsBranch (← peek).kind then pure []
    else
      let item ← atom fuel
      let item ← quantified item
      let rest ← items fuel
      pure (item :: rest)

/-- Reads an expression without the mark of a repetition. -/
def atom : Nat → Step Tree
  | 0 => exhausted
  | fuel + 1 => do
    let token ← take
    match leaf? token.kind with
    | some tree => pure tree
    | none =>
      match token.kind with
      | .openCapture => do
        let index ← nextGroup
        pure (.capture index none (← body fuel token.start none))
      | .openGroup opening => group fuel token.start opening
      | .error e => refuse e
      | _ => refuse (PatternFault.nothingToRepeat.errorAt token.start)

def group : Nat → Nat → GroupOpening → Step Tree
  | 0, _, _ => exhausted
  | fuel + 1, start, opening => do
    match opening with
    | .plain => pure (.group (← body fuel start none))
    | .named name => do
      let index ← nextGroup
      pure (.capture index (some name) (← body fuel start none))
    | .look kind => pure (.look kind (← body fuel start none))
    | .atomic => pure (.atomic (← body fuel start none))
    | .options on off true => pure (.scope ⟨on, off⟩ (← body fuel start (some ⟨on, off⟩)))
    | .options on off false => do
      applyToLexer ⟨on, off⟩
      pure (.options ⟨on, off⟩)
    | .condition ref => do
      let (yes, no) ← branches start (← body fuel start none)
      pure (.groupCond ref yes no)
    | .lookCondition kind => do
      let test ← body fuel start none
      let (yes, no) ← branches start (← body fuel start none)
      pure (.lookCond kind test yes no)

/-- Reads the inside of a group and its closing parenthesis. -/
def body : Nat → Nat → Option OptionSet → Step Tree
  | 0, _, _ => exhausted
  | fuel + 1, start, opts => do
    enter start
    let extended := (← get).lexer.extended
    match opts with
    | some opts => applyToLexer opts
    | none => pure ()
    let (tree, _) ← alternation fuel
    leave start extended
    pure tree

end

/-- Reads what follows the alternatives at the top. A parenthesis that closes nothing spoils them,
and what comes after it is read on. -/
def remainder (fuel : Nat) : Nat → Tree × List (Nat × Nat) → Step (Tree × List (Nat × Nat))
  | 0, _ => exhausted
  | more + 1, (root, spans) => do
    let token ← take
    match token.kind with
    | .eof => pure (root, spans)
    | .close => do
      let _ ← refuse (PatternFault.strayParenthesis.errorAt token.start)
      let (rest, _) ← alternation fuel
      remainder fuel more (.concat [root, .invalid, rest], [])
    | _ => remainder fuel more (root, spans)

/-- Takes the opening of a raw literal, if the pattern is one. The letters after it add flags. -/
def opening : Step (Bool × Flags) := do
  match (← peek).kind with
  | .rawMark => do
    let _ ← take
    let _ ← take
    match (← get).lexer.raw with
    | some raw => pure (true, raw.flags)
    | none => pure (true, .empty)
  | _ => pure (false, .empty)

def pattern (flags : Flags) (fuel : Nat) : Step SyntaxTree := do
  let (raw, added) ← opening
  let first ← alternation fuel
  let (root, spans) ← remainder fuel fuel first
  let passed := (← get).passed.reverse
  let tree := SyntaxTree.ofTree root (flags.union added)
  pure { tree with raw := raw, alternatives := spans, recovered := passed }

end Parser

def SyntaxTree.parse (source : List Char) (flags : Flags) (maxDepth : Nat) :
    Except Error SyntaxTree :=
  if RawLiteral.isRaw source && !flags.contains .rawLiterals then
    .error (PatternFault.rawNeedsFlag.errorAt 0)
  else
    match RawLiteral.find source with
    | .error e => .error e
    | .ok _ =>
      let parser : Parser :=
        ⟨.new source flags, none, flags.contains .recovery, maxDepth, 0, 0, []⟩
      (Parser.pattern flags (8 * source.length + 16)).run' parser

end RegexEngine
