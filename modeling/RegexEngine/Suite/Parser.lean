import RegexEngine.Suite.Quoted
import RegexEngine.Suite.Token

/-!
Reading suites. A suite is a list of directives: a pattern, flags for the last pattern, or a test
case, which is for the last pattern unless it names one. A test case may name a pattern that is
declared after it, so names are looked up at the end. Reading stops at the first error.
-/

namespace RegexEngine

namespace Suite

/-- A test case whose pattern was not looked up yet. -/
structure OpenCase where
  case : TestCase
  /-- The name of the pattern, and where it stands. -/
  wanted : Option (String × Span)
deriving DecidableEq, Repr

structure Reading where
  tokens : List SuiteToken
  /-- Where the text ends. -/
  stop : Nat
  patterns : List Declaration
  cases : List OpenCase

abbrev Read (α : Type) := StateT Reading (Except SuiteError) α

def failAt {α : Type} (fault : SuiteFault) (span : Span) : Read α := throw ⟨fault, span⟩

def failAtEnd {α : Type} (expected : String) : Read α := do
  let stop := (← get).stop
  failAt (.unexpectedEnd expected) ⟨stop, stop⟩

/-- Stops at a token that does not belong there. -/
def failOn {α : Type} (t : SuiteToken) (expected : String) : Read α :=
  match t.kind with
  | .unknown =>
    if t.looksLikeString then failAt .unterminatedString t.span
    else failAt (.unexpectedToken ("`" ++ t.written ++ "`") expected) t.span
  | .directive => failAt (.unexpectedToken ("`" ++ t.written ++ "`") expected) t.span
  | kind => failAt (.unexpectedToken kind.description expected) t.span

def next? : Read (Option SuiteToken) := do
  let r ← get
  match r.tokens with
  | [] => pure none
  | t :: rest =>
    set { r with tokens := rest }
    pure (some t)

def nextFor (expected : String) : Read SuiteToken := do
  match ← next? with
  | some t => pure t
  | none => failAtEnd expected

def expect (kind : SuiteTokenKind) : Read SuiteToken := do
  let t ← nextFor kind.description
  if t.kind = kind then pure t else failOn t kind.description

/-- Takes the comma after an item of a list. Without one the list has to end. -/
def separated : Read Bool := do
  match (← get).tokens with
  | [] => failAtEnd SuiteTokenKind.comma.description
  | t :: rest =>
    if t.kind = .comma then
      modify fun r => { r with tokens := rest }
      pure true
    else pure false

/-- Takes the items of a list and the token that ends it, with which it answers too. The fuel is the
number of tokens. -/
def items {α : Type} (closing kind : SuiteTokenKind) (expected : String)
    (item : SuiteToken → Read α) : Nat → Read (List α × SuiteToken)
  | 0 => failAtEnd expected
  | fuel + 1 => do
    let t ← nextFor expected
    if t.kind = closing then pure ([], t)
    else if t.kind = kind then
      let first ← item t
      if ← separated then
        let (rest, last) ← items closing kind expected item fuel
        pure (first :: rest, last)
      else pure ([first], ← expect closing)
    else failOn t expected

def list {α : Type} (closing kind : SuiteTokenKind) (expected : String)
    (item : SuiteToken → Read α) : Read (List α × SuiteToken) := do
  items closing kind expected item ((← get).tokens.length + 1)

def decoded (t : SuiteToken) : Read String :=
  match decode t.start t.chars with
  | .ok chars => pure (String.ofList chars)
  | .error e => throw e

def readPattern (directive : Span) : Read Unit := do
  let name ← expect .name
  if (← get).patterns.any (·.name == name.written) then
    failAt (.duplicatePattern name.written) name.span
  let _ ← expect .equal
  let source ← expect .text
  let made : Declaration :=
    ⟨name.written, String.ofList (patternText source.chars), [], directive.through source.span⟩
  modify fun r => { r with patterns := r.patterns ++ [made] }

/-- Gives the last of some patterns more flags. -/
def addFlags (flags : List String) : List Declaration → List Declaration
  | [] => []
  | [p] => [{ p with flags := p.flags ++ flags }]
  | p :: rest => p :: addFlags flags rest

def readFlags (directive : Span) : Read Unit := do
  if (← get).patterns.isEmpty then failAt .flagsWithoutPattern directive
  let _ ← expect .equal
  let _ ← expect .openBracket
  let (flags, _) ← list .closeBracket .name "flag name or `]`" fun t => pure t.written
  modify fun r => { r with patterns := addFlags flags r.patterns }

/-- The fields of a test case that were set. -/
structure Fields where
  input : Option String
  expectMatch : Option Bool
  groups : Option (List String)
  pattern : Option (String × Span)

def readBool : Read Bool := do
  let expected := "`true` or `false`"
  let t ← nextFor expected
  match t.kind with
  | .trueWord => pure true
  | .falseWord => pure false
  | _ => failOn t expected

def readTexts : Read (List String) := do
  let _ ← expect .openBracket
  (·.1) <$> list .closeBracket .text "string or `]`" decoded

/-- What reading a field does to the fields that were set before. -/
abbrev Change := Fields → Fields

/-- Reads a field of a test case, whose name comes first. Which fields are set already is told by
the fields before it. -/
def readField (before : Fields) (name : SuiteToken) : Read Change := do
  let once := fun (isSet : Bool) => do
    if isSet then failAt (.duplicateField name.written) name.span
    let _ ← expect .equal
  match name.written with
  | "input" =>
    once before.input.isSome
    let input ← decoded (← expect .text)
    pure fun f => { f with input := some input }
  | "expect_match" =>
    once before.expectMatch.isSome
    let expected ← readBool
    pure fun f => { f with expectMatch := some expected }
  | "match_groups" =>
    once before.groups.isSome
    let groups ← readTexts
    pure fun f => { f with groups := some groups }
  | "pattern" =>
    once before.pattern.isSome
    let wanted ← expect .name
    pure fun f => { f with pattern := some (wanted.written, wanted.span) }
  | field => failAt (.unknownField field) name.span

/-- Reads the fields of a test case up to the brace that ends it. The fuel is the number of tokens.
-/
def readFields : Nat → Fields → Read (Fields × Span)
  | 0, _ => failAtEnd "field name or `\x7d`"
  | fuel + 1, fields => do
    let expected := "field name or `\x7d`"
    let t ← nextFor expected
    match t.kind with
    | .closeBrace => pure (fields, t.span)
    | .name =>
      let change ← readField fields t
      let fields := change fields
      if ← separated then readFields fuel fields
      else pure (fields, (← expect .closeBrace).span)
    | _ => failOn t expected

def readCase (directive : Span) : Read Unit := do
  let _ ← expect .openBrace
  let (fields, stop) ← readFields ((← get).tokens.length + 1) ⟨none, none, none, none⟩
  let span := directive.through stop
  match fields.input with
  | none => failAt .missingInput span
  | some input =>
    let last := (← get).patterns.length
    if fields.pattern.isNone ∧ last = 0 then failAt .caseWithoutPattern directive
    let made : TestCase :=
      ⟨input, fields.expectMatch.getD true, fields.groups.getD [], last - 1, span⟩
    modify fun r => { r with cases := r.cases ++ [⟨made, fields.pattern⟩] }

def readDirectives : Nat → Read Unit
  | 0 => pure ()
  | fuel + 1 => do
    match ← next? with
    | none => pure ()
    | some t =>
      match t.kind with
      | .patternWord => readPattern t.span
      | .flagsWord => readFlags t.span
      | .caseWord => readCase t.span
      | .directive => failAt (.unknownDirective t.written) t.span
      | _ => failOn t "directive"
      readDirectives fuel

/-- Looks up the pattern of a test case. -/
def close (patterns : List Declaration) (c : OpenCase) : Except SuiteError TestCase :=
  match c.wanted with
  | none => .ok c.case
  | some (name, span) =>
    match patterns.findIdx? (·.name == name) with
    | some index => .ok { c.case with pattern := index }
    | none => .error ⟨.unknownPattern name, span⟩

/-- Reads a suite from tokens that matter. -/
def ofTokens (tokens : List SuiteToken) (stop : Nat) : Except SuiteError Suite := do
  let (_, r) ← (readDirectives tokens.length).run ⟨tokens, stop, [], []⟩
  pure ⟨r.patterns, ← r.cases.mapM (close r.patterns)⟩

def parse (source : List Char) : Except LocatedError Suite :=
  let length := Text.byteLength source
  let made := if Text.maxWord32 ≤ length then .error ⟨.sourceTooLarge, ⟨0, 0⟩⟩
    else ofTokens ((SuiteToken.tokenize source).filter (!·.kind.isTrivia)) length
  made.mapError (LocatedError.locate source)

end Suite

end RegexEngine
