import RegexEngine.CharRanges
import RegexEngine.Toml.Basic

/-!
Texts, numbers and points in time in TOML documents. Each reader takes a part of the characters and
leaves the rest. Integers have 64 bits. Of numbers with fractions it only matters that they are
finite where they are not written as infinite.
-/

namespace RegexEngine.Toml

/-- A reader takes characters from the start, and fails if they are not what it reads. -/
abbrev Read := StateT (List Char) Option

namespace Read

def span (test : Char → Bool) : Read (List Char) := modifyGet fun cs => cs.span test

def one (test : Char → Bool) : Read Char := fun cs =>
  match cs with
  | c :: rest => if test c then some (c, rest) else none
  | [] => none

def exactly (wanted : String) : Read Unit := fun cs =>
  (Text.strip? wanted.toList cs).map fun rest => ((), rest)

def maybe {α : Type} (read : Read α) : Read (Option α) := fun cs =>
  match read cs with
  | some (x, rest) => some (some x, rest)
  | none => some (none, cs)

/-- Also answers with the characters that were taken. -/
def written {α : Type} (read : Read α) : Read String := fun cs =>
  (read cs).map fun (_, rest) => (String.ofList (cs.take (cs.length - rest.length)), rest)

/-- Takes items for as long as there are any. Every item takes something, so the number of
characters bounds the number of items. -/
def many {α : Type} (read : Read α) : Read (List α) := fun cs => some (go (cs.length + 1) cs)
where
  /-- The items, and the characters that are left. -/
  go : Nat → List Char → List α × List Char
    | 0, cs => ([], cs)
    | fuel + 1, cs =>
      match read cs with
      | none => ([], cs)
      | some (x, rest) =>
        let (xs, rest) := go fuel rest
        (x :: xs, rest)

end Read

def isBlank (c : Char) : Bool := c == ' ' || c == '\t'

/-- True for characters that comments and texts may hold as they are: all but control characters, of
which only the tab is allowed. -/
def isShown (c : Char) : Bool :=
  c == '\t' || (0x20 ≤ c.toNat && c.toNat ≤ 0x7E) || 0x80 ≤ c.toNat

def blanks : Read Unit := discard (Read.span isBlank)

def lineEnd : Read Unit := Read.exactly "\n" <|> Read.exactly "\r\n"

def letterEscape? : Char → Option Char
  | 'b' => some '\x08'
  | 't' => some '\t'
  | 'n' => some '\n'
  | 'f' => some '\x0c'
  | 'r' => some '\r'
  | '"' => some '"'
  | '\\' => some '\\'
  | _ => none

def codePoint (count : Nat) : Read Char := fun cs => do
  let digits := cs.take count
  if digits.length = count then
    let c ← (Text.digitsValue? 16 digits).bind charOfCode?
    pure (c, cs.drop count)
  else none

def escape : Read Char := do
  match ← Read.one fun _ => true with
  | 'u' => codePoint 4
  | 'U' => codePoint 8
  | c => liftM (letterEscape? c)

def quotedChar : Read Char := do
  match ← Read.one fun c => isShown c && c != '"' with
  | '\\' => escape
  | c => pure c

/-- Takes a text on one line, with escapes in double quotes and without them in single quotes. -/
def lineText : Read String := do
  match ← Read.one fun c => c == '"' || c == '\'' with
  | '"' =>
    let content ← Read.many quotedChar
    Read.exactly "\""
    pure (String.ofList content)
  | _ =>
    let content ← Read.span fun c => isShown c && c != '\''
    Read.exactly "'"
    pure (String.ofList content)

/-- Takes a backslash at the end of a line, together with all white space that follows. -/
def continuation : Read (List Char) := do
  Read.exactly "\\"
  blanks
  lineEnd
  let _ ← Read.many (discard (Read.one isBlank) <|> lineEnd)
  pure []

/-- Takes one or two quotes that do not end a text of several lines. -/
def innerQuote (quote : Char) : Read (List Char) := fun cs =>
  let (quotes, rest) := cs.span (· == quote)
  if 1 ≤ quotes.length ∧ quotes.length ≤ 2 then some (quotes, rest) else none

def linesPiece (quote : Char) : Read (List Char) :=
  innerQuote quote
    <|> (lineEnd *> pure ['\n'])
    <|> (if quote == '"' then continuation <|> ((· :: []) <$> quotedChar)
      else (· :: []) <$> Read.one fun c => isShown c && c != quote)

/-- Takes the end of a text of several lines. Up to two more quotes before it belong to the text. -/
def closingQuotes (quote : Char) : Read (List Char) := fun cs =>
  let count := (cs.takeWhile (· == quote)).length
  if count < 3 then none
  else
    let taken := min count 5
    some (cs.take (taken - 3), cs.drop taken)

/-- Takes a text of several lines. A line end right after the opening quotes does not count. -/
def linesText : Read String := do
  let quote ← (Read.exactly "\"\"\"" *> pure '"') <|> (Read.exactly "'''" *> pure '\'')
  let _ ← Read.maybe lineEnd
  let pieces ← Read.many (linesPiece quote)
  let last ← closingQuotes quote
  pure (String.ofList (pieces.flatten ++ last))

def text : Read String := linesText <|> lineText

/-- Takes digits, between which single underscores may stand. The digits are the answer. -/
def digits (test : Char → Bool) : Read (List Char) := do
  let first ← Read.one test
  let rest ← Read.many (Read.one test <|> (Read.exactly "_" *> Read.one test))
  pure (first :: rest)

/-- Takes a sign. The answer tells whether it is a minus. -/
def sign : Read Bool := (· == '-') <$> Read.one fun c => c == '+' || c == '-'

/-- Takes a decimal number without leading zeros. -/
def wholeDigits : Read (List Char) := do
  match (← get).head? with
  | some '0' => (· :: []) <$> Read.one (· == '0')
  | _ => digits Text.isDigit

/-- The smallest number that rounds to infinity as a binary floating point number of 64 bits: half a
unit above the greatest one. -/
def overflowBound : Nat := Nat.pow 2 1024 - Nat.pow 2 970

/-- True when a number, as digits and a decimal exponent, is too great for 64 bits. -/
def overflows (value : Nat) (exponent : Int) : Bool :=
  if value = 0 then false
  else if 0 ≤ exponent then
    400 < exponent || overflowBound ≤ value * Nat.pow 10 exponent.toNat
  else
    let places := (-exponent).toNat
    places < (Nat.toDigits 10 value).length && overflowBound * Nat.pow 10 places ≤ value

def exponent : Read Int := do
  let _ ← Read.one fun c => c == 'e' || c == 'E'
  let negative := (← Read.maybe sign).getD false
  let value ← liftM (Text.digitsValue? 10 (← digits Text.isDigit))
  pure (if negative then -value else value)

/-- Takes what makes a number one with a fraction: digits after a point, an exponent or both. -/
def fraction : Read (List Char × Int) := do
  match ← Read.maybe (Read.exactly "." *> digits Text.isDigit) with
  | some places => pure (places, (← Read.maybe exponent).getD 0)
  | none => pure ([], ← exponent)

/-- Takes a number with a fraction. Of those that round to infinity, only negative ones are
accepted. -/
def finiteFloat : Read Unit := do
  let negative := (← Read.maybe sign).getD false
  let whole ← wholeDigits
  let (places, shift) ← fraction
  let value ← liftM (Text.digitsValue? 10 (whole ++ places))
  if !negative && overflows value (shift - places.length) then failure

def specialFloat : Read Unit := do
  let _ ← Read.maybe sign
  Read.exactly "inf" <|> Read.exactly "nan"

def fitsWord64 (n : Int) : Bool := -0x8000000000000000 ≤ n && n < 0x8000000000000000

def decimal : Read Int := do
  let negative := (← Read.maybe sign).getD false
  let value ← liftM (Text.digitsValue? 10 (← wholeDigits))
  pure (if negative then -value else value)

def inBase (mark : String) (base : Nat) : Read Int := do
  Read.exactly mark
  let isDigit := fun c => (Text.hexDigit? c).any (· < base)
  let value ← liftM (Text.digitsValue? base (← digits isDigit))
  pure value

def integer : Read Int := do
  let value ← inBase "0x" 16 <|> inBase "0o" 8 <|> inBase "0b" 2 <|> decimal
  if fitsWord64 value then pure value else failure

/-- Takes a number of a given number of digits between two bounds. -/
def counted (count least most : Nat) : Read Nat := fun cs => do
  let taken := cs.take count
  let value ← Text.digitsValue? 10 taken
  if taken.length = count ∧ least ≤ value ∧ value ≤ most then some (value, cs.drop count) else none

def daysOf (year month : Nat) : Nat :=
  match month with
  | 2 => if year % 4 = 0 ∧ (year % 100 ≠ 0 ∨ year % 400 = 0) then 29 else 28
  | 4 | 6 | 9 | 11 => 30
  | _ => 31

def date : Read Unit := do
  let year ← counted 4 0 9999
  Read.exactly "-"
  let month ← counted 2 1 12
  Read.exactly "-"
  discard (counted 2 1 (daysOf year month))

/-- Takes a time of the day. There may be a leap second, and fractions of a second. -/
def timeOfDay : Read Unit := do
  discard (counted 2 0 23)
  Read.exactly ":"
  discard (counted 2 0 59)
  Read.exactly ":"
  discard (counted 2 0 60)
  discard (Read.maybe do
    Read.exactly "."
    let _ ← Read.one Text.isDigit
    Read.span Text.isDigit)

/-- Takes the distance from universal time. -/
def offset : Read Unit :=
  discard (Read.one fun c => c == 'Z' || c == 'z') <|> do
    discard sign
    discard (counted 2 0 23)
    Read.exactly ":"
    discard (counted 2 0 59)

/-- Takes a date, a time of the day, or both with a letter or a space between them. -/
def time : Read Unit :=
  timeOfDay <|> do
    date
    discard (Read.maybe do
      discard (Read.one fun c => c == 'T' || c == 't' || c == ' ')
      timeOfDay
      discard (Read.maybe offset))

def boolean : Read Bool :=
  (Read.exactly "true" *> pure true) <|> (Read.exactly "false" *> pure false)

def scalar : Read Node :=
  (.text <$> text)
    <|> (.boolean <$> boolean)
    <|> (.time <$> Read.written time)
    <|> (.float <$> Read.written (finiteFloat <|> specialFloat))
    <|> (.integer <$> integer)

end RegexEngine.Toml
