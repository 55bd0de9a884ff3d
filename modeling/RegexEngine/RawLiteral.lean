import RegexEngine.Error
import RegexEngine.Flags

/-!
Raw literals: patterns written as `R'...'` or `R"..."` with modifier letters after the closing
quote. The body ends at the first quote of the opening kind that nothing but modifier letters
follow, and that stands outside of brackets, with all parentheses closed, and without a backslash
before it.
-/

namespace RegexEngine

/-- A pattern in quotes: its text, and the letters that follow it. -/
structure RawLiteral where
  quote : Char
  body : List Char
  modifiers : List Char
deriving DecidableEq, Repr

namespace RawLiteral

def isModifier (c : Char) : Bool := ['i', 'm', 's', 'x', 'U', 'r'].contains c

/-- The quote that opens a raw literal, and what follows it. -/
def opening? : List Char → Option (Char × List Char)
  | 'R' :: '\'' :: rest => some ('\'', rest)
  | 'R' :: '"' :: rest => some ('"', rest)
  | _ => none

def isRaw (source : List Char) : Bool := (opening? source).isSome

/-- Divides a text at the quote that ends the body. `depth` counts the parentheses that are open,
and `inClass` tells whether a bracket is. -/
def splitAtQuote? (quote : Char) (depth : Int) (inClass : Bool) :
    List Char → Option (List Char × List Char)
  | [] => none
  | '\\' :: c :: rest => (splitAtQuote? quote depth inClass rest).map fun (body, tail) =>
      ('\\' :: c :: body, tail)
  | c :: rest =>
    if c == quote && !inClass && depth ≤ 0 && rest.all isModifier then some ([], rest)
    else
      let depth := if inClass then depth
        else if c == '(' then depth + 1
        else if c == ')' then depth - 1
        else depth
      let inClass := if c == '[' then true else if c == ']' then false else inClass
      (splitAtQuote? quote depth inClass rest).map fun (body, tail) => (c :: body, tail)

def otherQuote (quote : Char) : Char := if quote == '\'' then '"' else '\''

/-- Why a raw literal has no end: it ends with the wrong quote, or with none. -/
def openError (source : List Char) (quote : Char) : Error :=
  let other := otherQuote quote
  let trimmed := (source.reverse.dropWhile isModifier).reverse
  if trimmed.length > 2 && trimmed.getLast? == some other then
    (PatternFault.mismatchedQuotes quote other).errorAt (Text.byteLength trimmed - 1)
  else PatternFault.unterminatedRaw.errorAt 1

/-- Takes a raw literal apart. A text that is none has no parts. -/
def find (source : List Char) : Except Error (Option RawLiteral) :=
  match opening? source with
  | none => .ok none
  | some (quote, rest) =>
    match splitAtQuote? quote 0 false rest with
    | some (body, modifiers) => .ok (some ⟨quote, body, modifiers⟩)
    | none => .error (openError source quote)

def bodyStart : Nat := 2

def bodyStop (raw : RawLiteral) : Nat := bodyStart + Text.byteLength raw.body

def flags (raw : RawLiteral) : Flags :=
  (Flags.ofLetters raw.modifiers).toOption.getD .empty

end RawLiteral

end RegexEngine
