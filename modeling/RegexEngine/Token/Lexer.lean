import RegexEngine.Token.Basic
import RegexEngine.CharClass.Parser
import RegexEngine.RawLiteral

/-!
Splitting a pattern into tokens. Tokens are asked for one at a time, because an option inside the
pattern can change how the rest of it is split: in the extended form white space and comments are
skipped. Malformed text never stops the lexer. It becomes an error token, and the lexer goes on
after it, or at the end where going on would make no sense.
-/

namespace RegexEngine

open Text (Cursor)

/-- Reads the text before a closing character, and moves on after it. -/
def readUntil? (mark : Char) (cur : Cursor) : Option (String × Cursor) :=
  (Text.splitAtChar? mark cur.rest).map fun (found, _) =>
    (String.ofList found, cur.drop (found.length + 1))

namespace TokenKind

/-- An error after which nothing else of the pattern is read. -/
def bail (fault : PatternFault) (start : Nat) (cur : Cursor) : TokenKind × Cursor :=
  (.error (fault.errorAt start), cur.drop cur.rest.length)

/-- A name that ends at `mark`. Without one the rest of the pattern is lost. -/
def readName (fault : PatternFault) (start : Nat) (mark : Char) (make : String → TokenKind)
    (cur : Cursor) : TokenKind × Cursor :=
  match readUntil? mark cur with
  | some (name, after) => (make name, after)
  | none => bail fault start cur

def conditionRef? (inner : List Char) : Option GroupRef :=
  match Text.readNat? 10 Text.maxWord64 inner with
  | some n => some (.number n)
  | none =>
    match Text.between? '<' '>' inner, Text.between? '\'' '\'' inner with
    | some name, _ => some (.name (String.ofList name))
    | none, some name => some (.name (String.ofList name))
    | none, none => if inner.isEmpty then none else some (.name (String.ofList inner))

def readCondition (start : Nat) (cur : Cursor) : TokenKind × Cursor :=
  match LookKind.all.find? fun kind => cur.looksAt kind.opening with
  | some kind => (.openGroup (.lookCondition kind), cur.drop kind.opening.length)
  | none =>
    match Text.splitAtChar? ')' cur.rest with
    | none => bail .unclosedCondition start cur
    | some (inner, _) =>
      let after := cur.drop (inner.length + 1)
      match conditionRef? inner with
      | some ref => (.openGroup (.condition ref), after)
      | none => (.error (PatternFault.emptyCondition.errorAt start), after)

/-- Reads option letters. The letters after a dash are switched off. A colon makes the options hold
for the group that it opens, a parenthesis for the rest of the enclosing one. -/
def readOptions (start : Nat) (on off : List Char) (negating : Bool) :
    Nat → List Char → TokenKind × Cursor
  | offset, [] => (.error (PatternFault.unclosedGroup.errorAt start), ⟨offset, []⟩)
  | offset, c :: rest =>
    let after := offset + c.utf8Size
    if c == ')' || c == ':' then
      (.openGroup (.options (String.ofList on) (String.ofList off) (c == ':')), ⟨after, rest⟩)
    else if c == '-' && !negating then readOptions start on off true after rest
    else if Text.isAlphanumeric c then
      if negating then readOptions start on (off ++ [c]) negating after rest
      else readOptions start (on ++ [c]) off negating after rest
    else (.error ((PatternFault.badModifier c).errorAt start), ⟨after, rest⟩)

def readQuestion (start : Nat) (cur : Cursor) : TokenKind × Cursor :=
  match cur.rest with
  | ':' :: _ => (.openGroup .plain, cur.drop 1)
  | '=' :: _ => (.openGroup (.look .ahead), cur.drop 1)
  | '!' :: _ => (.openGroup (.look .notAhead), cur.drop 1)
  | '>' :: _ => (.openGroup .atomic, cur.drop 1)
  | '#' :: _ => readName .unclosedComment start ')' .comment (cur.drop 1)
  | '<' :: '=' :: _ => (.openGroup (.look .behind), cur.drop 2)
  | '<' :: '!' :: _ => (.openGroup (.look .notBehind), cur.drop 2)
  | '<' :: _ => readName .unclosedGroupName start '>' (.openGroup ∘ .named) (cur.drop 1)
  | '\'' :: _ => readName .unclosedGroupName start '\'' (.openGroup ∘ .named) (cur.drop 1)
  | 'P' :: '<' :: _ => readName .unclosedGroupName start '>' (.openGroup ∘ .named) (cur.drop 2)
  | 'P' :: '=' :: _ => readName .unclosedBackref start ')' .namedBackref (cur.drop 2)
  | '(' :: _ => readCondition start (cur.drop 1)
  | [] => bail .unclosedGroup start cur
  | _ => readOptions start [] [] false cur.offset cur.rest

/-- Reads what follows an opening parenthesis: a verb, a kind of group, or the group itself. -/
def readGroup (start : Nat) (cur : Cursor) : TokenKind × Cursor :=
  match cur.rest with
  | '*' :: after =>
    let name := after.takeWhile Text.isAsciiCapital
    if !name.isEmpty && after[name.length]? == some ')' then
      let text := String.ofList name
      let kind := match Verb.ofName? text with
        | some v => .verb v
        | none => .error ((PatternFault.unknownVerb text).errorAt start)
      (kind, cur.drop (name.length + 2))
    else (.openCapture, cur)
  | '?' :: _ => readQuestion start (cur.drop 1)
  | _ => (.openCapture, cur)

/-- Reads a bracket expression at its bracket. A faulty one ends at the next closing bracket. -/
def readBracket (strict : Bool) (cur : Cursor) : TokenKind × Cursor :=
  let scanned : Except Error (TokenKind × Cursor) := do
    let (_, after) ← CharClass.readBracket false cur
    let spec := cur.rest.take (cur.rest.length - after.rest.length)
    if strict then
      let _ ← (CharClass.parseWith true spec).mapError fun e => e.shift cur.offset
    pure (.bracket (String.ofList spec), after)
  match scanned with
  | .ok found => found
  | .error e =>
    match Text.splitAtChar? ']' (cur.rest.drop 1) with
    | some (skipped, _) => (.error e, cur.drop (skipped.length + 2))
    | none => (.error e, cur.drop cur.rest.length)

/-- The bounds of a counted repetition. Without a comma both are the same, and nothing after the
comma means no upper bound. -/
def countBounds (low : List Char) (high : Option (List Char)) :
    Except PatternFault (Nat × Option Nat) := do
  let read := fun digits =>
    match Text.readNat? 10 Text.maxWord32 digits with
    | some n => .ok n
    | none => .error .countTooLarge
  let min ← read low
  let max ← match high with
    | none => pure (some min)
    | some [] => pure none
    | some digits => some <$> read digits
  if max.any (· < min) then .error .reversedCount else pure (min, max)

/-- Reads what follows an opening brace. Without a digit the brace stands for itself. -/
def readCount (start : Nat) (cur : Cursor) : TokenKind × Cursor :=
  let low := cur.rest.takeWhile Text.isDigit
  if low.isEmpty then (.char '{', cur)
  else
    let afterLow := cur.drop low.length
    let high := match afterLow.rest with
      | ',' :: rest => some (rest.takeWhile Text.isDigit)
      | _ => none
    let last := match high with
      | some digits => afterLow.drop (digits.length + 1)
      | none => afterLow
    match last.rest with
    | '}' :: _ =>
      match countBounds low high with
      | .ok (min, max) => (.counted min max, last.drop 1)
      | .error fault => (.error (fault.errorAt start), last.drop 1)
    | _ => bail .unclosedCount start last

def assertion? : Char → Option Assertion
  | 'A' => some .inputStart
  | 'z' => some .inputEnd
  | 'Z' => some .inputEndOrNewline
  | 'b' => some .wordBoundary
  | 'B' => some .notWordBoundary
  | _ => none

def readNamedBackref (start : Nat) (cur : Cursor) : TokenKind × Cursor :=
  match cur.rest with
  | '<' :: _ => readName .unclosedGroupName start '>' .namedBackref (cur.drop 1)
  | '{' :: _ => readName .unclosedGroupName start '}' .namedBackref (cur.drop 1)
  | '\'' :: _ => readName .unclosedGroupName start '\'' .namedBackref (cur.drop 1)
  | _ => (.error (PatternFault.namelessBackref.errorAt start), cur)

/-- Reads what follows a backslash. A back reference by number has two digits at most. -/
def readEscaped (strict : Bool) (start : Nat) (cur : Cursor) : TokenKind × Cursor :=
  match cur.rest with
  | [] => (.error (PatternFault.danglingBackslash.errorAt start), cur)
  | c :: rest =>
    match PerlClass.ofLetter? c, assertion? c with
    | some (name, negated), _ => (.perl name negated, cur.drop 1)
    | none, some a => (.assertion a, cur.drop 1)
    | none, none =>
      if c != '0' && Text.isDigit c then
        let digits := c :: (rest.take 1).takeWhile Text.isDigit
        (.backref ((Text.digitsValue? 10 digits).getD 0), cur.drop digits.length)
      else if c == 'k' then readNamedBackref start (cur.drop 1)
      else
        match readEscape strict cur with
        | .ok (.char d, after) => (.char d, after)
        | .ok (.item _, after) =>
          let text := cur.rest.take (cur.rest.length - after.rest.length)
          (.property (String.ofList ('\\' :: text)), after)
        | .error fault => (.error (fault.errorAt start), cur.drop 1)

/-- Reads one token of the body of a pattern, whose first character is `c`. -/
def read (strict : Bool) (cur : Cursor) (c : Char) : TokenKind × Cursor :=
  let after := cur.drop 1
  match c with
  | '.' => (.dot, after)
  | '^' => (.caret, after)
  | '$' => (.dollar, after)
  | '*' => (.star, after)
  | '+' => (.plus, after)
  | '?' => (.question, after)
  | '|' => (.pipe, after)
  | ')' => (.close, after)
  | '(' => readGroup cur.offset after
  | '[' => readBracket strict cur
  | '{' => readCount cur.offset after
  | '\\' => readEscaped strict cur.offset after
  | c => (.char c, after)

end TokenKind

/-- Skips white space and comments. A comment goes from a number sign to the end of its line. -/
def skipBlanks (inComment : Bool) : Nat → List Char → Cursor
  | offset, [] => ⟨offset, []⟩
  | offset, c :: rest =>
    let after := offset + c.utf8Size
    if inComment then skipBlanks (c != '\n') after rest
    else if Text.isBlank c then skipBlanks false after rest
    else if c == '#' then skipBlanks true after rest
    else ⟨offset, c :: rest⟩

/-- The parts of a pattern, in the order in which they are split. Only a raw literal has all. -/
inductive LexerPhase
  | rawMark | rawOpen | body | rawClose | rawModifiers | done
deriving DecidableEq, Repr

/-- A lexer: the part of the pattern that it is in, and what is left of the body. -/
structure Lexer where
  source : List Char
  cur : Cursor
  phase : LexerPhase
  raw : Option RawLiteral
  extended : Bool
  strict : Bool
deriving Repr

namespace Lexer

def new (source : List Char) (flags : Flags) : Lexer where
  source := source
  cur := .start source
  phase := if RawLiteral.isRaw source then .rawMark else .body
  raw := none
  extended := flags.contains .extended
  strict := flags.contains .strict

def length (lexer : Lexer) : Nat := Text.byteLength lexer.source

def eof (lexer : Lexer) : Token := ⟨.eof, lexer.length, lexer.length⟩

/-- The token for the letter that marks a raw literal. A literal that has no end is one error. -/
def markToken (lexer : Lexer) : Token × Lexer :=
  match RawLiteral.find lexer.source with
  | .ok raw =>
    let extended := lexer.extended || raw.any (·.modifiers.contains 'x')
    (⟨.rawMark, 0, 1⟩, { lexer with phase := .rawOpen, raw := raw, extended := extended })
  | .error e => (⟨.error e, 0, lexer.length⟩, { lexer with phase := .done })

/-- The token for an opening quote. Between the quotes only the body is read. -/
def quoteToken (lexer : Lexer) : Token × Lexer :=
  let (quote, body) := match lexer.raw with
    | some raw => (raw.quote, raw.body)
    | none => ('\'', lexer.source.drop 2)
  (⟨.rawOpen quote, 1, 2⟩, { lexer with phase := .body, cur := ⟨RawLiteral.bodyStart, body⟩ })

/-- The token after the body: a closing quote, or the end of the pattern. -/
def closeToken (lexer : Lexer) : Token × Lexer :=
  match lexer.raw with
  | some raw =>
    (⟨.rawClose raw.quote, raw.bodyStop, raw.bodyStop + 1⟩, { lexer with phase := .rawClose })
  | none => (lexer.eof, { lexer with phase := .done })

/-- The token for the letters after a closing quote, or the end where there are none. -/
def modifiersToken (lexer : Lexer) : Token × Lexer :=
  match lexer.raw with
  | some raw =>
    if raw.modifiers.isEmpty then (lexer.eof, { lexer with phase := .done })
    else
      (⟨.rawModifiers (String.ofList raw.modifiers), raw.bodyStop + 1, lexer.length⟩,
        { lexer with phase := .rawModifiers })
  | none => (lexer.eof, { lexer with phase := .done })

/-- The next token of the body, or the one that follows the body. -/
def bodyToken (lexer : Lexer) : Token × Lexer :=
  let cur := if lexer.extended then skipBlanks false lexer.cur.offset lexer.cur.rest else lexer.cur
  match cur.rest with
  | [] => closeToken { lexer with cur := cur }
  | c :: _ =>
    let (kind, after) := TokenKind.read lexer.strict cur c
    (⟨kind, cur.offset, after.offset⟩, { lexer with cur := after })

/-- The next token. At the end of the pattern it is the end again and again. -/
def next (lexer : Lexer) : Token × Lexer :=
  match lexer.phase with
  | .rawMark => markToken lexer
  | .rawOpen => quoteToken lexer
  | .body => bodyToken lexer
  | .rawClose => modifiersToken lexer
  | .rawModifiers | .done => (lexer.eof, { lexer with phase := .done })

def run : Nat → Lexer → List Token
  | 0, _ => []
  | fuel + 1, lexer =>
    let (token, rest) := lexer.next
    if token.kind = .eof then [token] else token :: run fuel rest

/-- All tokens, the end of the pattern being the last one. Each token of the body takes a character,
and there are at most five others. -/
def tokenize (lexer : Lexer) : List Token := run (lexer.source.length + 6) lexer

end Lexer

end RegexEngine
