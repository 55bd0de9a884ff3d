import RegexEngine.CharRanges
import RegexEngine.Suite.Basic

/-!
What strings of a suite stand for. In inputs and groups the escapes are decoded. In patterns they
are kept, because there backslashes belong to the pattern; only the quotes that would end the string
lose theirs.
-/

namespace RegexEngine.Suite

/-- The characters between the first and the last one. -/
def inside (literal : List Char) : List Char := literal.tail.dropLast

/-- The content of a string, with the backslashes removed that stand before its quote. -/
def keepEscapes (quote : Char) : List Char → List Char
  | [] => []
  | '\\' :: c :: rest =>
    if c = quote then quote :: keepEscapes quote rest else '\\' :: c :: keepEscapes quote rest
  | c :: rest => c :: keepEscapes quote rest

/-- The text of a pattern, from the string that was written. -/
def patternText : List Char → List Char
  | [] => []
  | quote :: rest => keepEscapes quote rest.dropLast

def letterEscape? : Char → Option Char
  | 'n' => some '\n'
  | 'r' => some '\r'
  | 't' => some '\t'
  | '0' => some '\x00'
  | '\\' => some '\\'
  | '\'' => some '\''
  | '"' => some '"'
  | _ => none

def codePoint? (digits : List Char) : Option Char :=
  if digits.all Text.isHexDigit then (Text.digitsValue? 16 digits).bind charOfCode? else none

/-- Reads what follows the letter of a code point escape: two digits, or one to six in braces. -/
def readCodePoint? (letter : Char) (rest : List Char) : Option (Char × List Char) :=
  match letter, rest with
  | 'x', a :: b :: rest => (codePoint? [a, b]).map (·, rest)
  | 'u', '{' :: rest =>
    match Text.splitAtChar? '}' rest with
    | some (digits, rest) =>
      if 1 ≤ digits.length ∧ digits.length ≤ 6 then (codePoint? digits).map (·, rest) else none
    | none => none
  | _, _ => none

def readEscape? : List Char → Option (Char × List Char)
  | [] => none
  | c :: rest =>
    match letterEscape? c with
    | some decoded => some (decoded, rest)
    | none => readCodePoint? c rest

/-- The error for an escape that stands for nothing: a backslash and the character after it. -/
def escapeError (at_ : Nat) (rest : List Char) : SuiteError :=
  let escape := '\\' :: rest.take 1
  ⟨.invalidEscape (String.ofList escape), ⟨at_, at_ + Text.byteLength escape⟩⟩

/-- Decodes the escapes of a content that starts at an offset. The fuel is the length of the
content. -/
def decodeFrom : Nat → Nat → List Char → Except SuiteError (List Char)
  | 0, _, _ | _, _, [] => .ok []
  | fuel + 1, at_, '\\' :: rest =>
    match readEscape? rest with
    | some (c, after) => do
      let taken := rest.take (rest.length - after.length)
      pure (c :: (← decodeFrom fuel (at_ + 1 + Text.byteLength taken) after))
    | none => .error (escapeError at_ rest)
  | fuel + 1, at_, c :: rest => do
    pure (c :: (← decodeFrom fuel (at_ + c.utf8Size) rest))

def decode (start : Nat) (literal : List Char) : Except SuiteError (List Char) :=
  decodeFrom literal.length (start + 1) (inside literal)

end RegexEngine.Suite
