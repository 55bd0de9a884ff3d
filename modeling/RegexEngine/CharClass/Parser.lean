import RegexEngine.CharClass.Basic
import RegexEngine.Text.Cursor
import RegexEngine.Error

/-!
Reading classes. A class is a bracket expression, a letter class or a property. Inside brackets
stand characters, escapes, named classes and ranges. Every reader takes a place in the text and
answers with what it read and the place after it. The end of a bracket expression does not depend on
what follows it.
-/

namespace RegexEngine

open Text (Cursor)

inductive Escaped
  | char (c : Char)
  | item (part : ClassItem)
deriving DecidableEq, Repr

/-- The character that a letter or digit stands for after a backslash. -/
def controlLetter? : Char → Option Char
  | 'n' => some '\n'
  | 't' => some '\t'
  | 'r' => some '\r'
  | 'f' => some '\x0C'
  | 'v' => some '\x0B'
  | 'a' => some '\x07'
  | 'e' => some '\x1B'
  | '0' => some '\x00'
  | 'b' => some '\x08'
  | _ => none

def namedProperty (name : List Char) (negated : Bool) : Except PatternFault Escaped :=
  match UnicodeProperty.ofName? (String.ofList name) with
  | some known => .ok (.item (.property known negated))
  | none => .error (.unknownProperty (String.ofList name))

/-- Reads what names a property: one letter, or a name in braces. -/
def readProperty (negated : Bool) (cur : Cursor) : Except PatternFault (Escaped × Cursor) :=
  match cur.rest with
  | '{' :: inner =>
    match Text.splitAtChar? '}' inner with
    | some (name, _) => do pure (← namedProperty name negated, cur.drop (name.length + 2))
    | none => .error .unclosedProperty
  | n :: _ =>
    if Text.isAsciiLetter n then do pure (← namedProperty [n] negated, cur.drop 1)
    else .error .badProperty
  | [] => .error .badProperty

def codePointEscape (digits : List Char) : Except PatternFault Escaped :=
  match (Text.readNat? 16 Text.maxWord32 digits).bind charOfCode? with
  | some c => .ok (.char c)
  | none => .error .badCodePoint

/-- Reads a code point: two digits, or any number of digits in braces. -/
def readCodePoint (cur : Cursor) : Except PatternFault (Escaped × Cursor) :=
  match cur.rest with
  | '{' :: inner =>
    match Text.splitAtChar? '}' inner with
    | some (digits, _) => do pure (← codePointEscape digits, cur.drop (digits.length + 2))
    | none => .error .unclosedHex
  | a :: b :: _ =>
    if Text.isHexDigit a && Text.isHexDigit b then do
      pure (← codePointEscape [a, b], cur.drop 2)
    else .error .shortHex
  | _ => .error .shortHex

/-- Reads what follows a backslash. The strict reading refuses to escape characters that have no
meaning of their own. -/
def readEscape (strict : Bool) (cur : Cursor) : Except PatternFault (Escaped × Cursor) :=
  match cur.rest with
  | [] => .error .danglingBackslash
  | c :: _ =>
    match PerlClass.ofLetter? c, controlLetter? c with
    | some (name, negated), _ => .ok (.item (.perl name negated), cur.drop 1)
    | none, some d => .ok (.char d, cur.drop 1)
    | none, none =>
      if c == 'p' || c == 'P' then readProperty (c == 'P') (cur.drop 1)
      else if c == 'x' then readCodePoint (cur.drop 1)
      else if Text.isAsciiAlphanumeric c then .error (.unknownEscape c)
      else if strict && !isMeta c then .error (.needlessEscape c)
      else .ok (.char c, cur.drop 1)

namespace CharClass

/-- Reads an escape at its backslash. A fault counts from the character after the backslash. -/
def readBackslash (strict : Bool) (cur : Cursor) : Except Error (Escaped × Cursor) :=
  match readEscape strict (cur.drop 1) with
  | .ok found => .ok found
  | .error fault => .error (fault.errorAt (cur.drop 1).offset)

def readPosix (cur : Cursor) : Except Error (Escaped × Cursor) :=
  let inner := cur.drop 2
  let negated := inner.peek? == some '^'
  let named := if negated then inner.drop 1 else inner
  match Text.splitAtText? [':', ']'] named.rest with
  | none => .error (PatternFault.unclosedPosix.errorAt cur.offset)
  | some (name, _) =>
    match PosixClass.ofName? (String.ofList name) with
    | some known => .ok (.item (.posix known negated), named.drop (name.length + 2))
    | none => .error ((PatternFault.unknownPosix (String.ofList name)).errorAt cur.offset)

def readAtom (strict : Bool) (cur : Cursor) (c : Char) : Except Error (Escaped × Cursor) :=
  if c == '[' && cur.looksAt "[:" then readPosix cur
  else if c == '\\' then readBackslash strict cur
  else .ok (.char c, cur.drop 1)

/-- True at a dash that stands between two ends of a range: it is not the last character, and the
bracket does not close after it. -/
def startsRange (cur : Cursor) : Bool :=
  match cur.rest with
  | '-' :: c :: _ => c != ']'
  | _ => false

def readRangeEnd (strict : Bool) (dash : Cursor) (c : Char) : Except Error (Char × Cursor) := do
  let atom := dash.drop 1
  if c == '[' && atom.looksAt "[:" then
    .error (PatternFault.unmatchedDash.errorAt dash.offset)
  else
    match ← readAtom strict atom c with
    | (.char last, after) => pure (last, after)
    | (.item _, _) => .error (PatternFault.unmatchedDash.errorAt dash.offset)

/-- Reads a part of a bracket expression: a range, or what stands for itself. -/
def readItem (strict : Bool) (cur : Cursor) (c : Char) : Except Error (ClassItem × Cursor) := do
  let (atom, after) ← readAtom strict cur c
  match startsRange after, after.drop 1 with
  | true, ⟨_, lastStart :: _⟩ =>
    match atom with
    | .item _ => .error (PatternFault.unmatchedDash.errorAt after.offset)
    | .char first =>
      let (last, rest) ← readRangeEnd strict after lastStart
      if last < first then .error (PatternFault.reversedClassRange.errorAt cur.offset)
      else pure (.range first last, rest)
  | _, _ =>
    match atom with
    | .item part => pure (part, after)
    | .char c => pure (.range c c, after)

/-- Reads the parts of a bracket expression and its closing bracket. The fuel is more than the
number of characters that are left. -/
def readItems (strict : Bool) (opened : Nat) :
    Nat → Cursor → Except Error (List ClassItem × Cursor)
  | 0, _ => .error (PatternFault.unclosedClass.errorAt opened)
  | fuel + 1, cur =>
    match cur.rest with
    | [] => .error (PatternFault.unclosedClass.errorAt opened)
    | ']' :: _ => .ok ([], cur.drop 1)
    | c :: _ => do
      let (item, after) ← readItem strict cur c
      let (items, rest) ← readItems strict opened fuel after
      pure (item :: items, rest)

def readBracket (strict : Bool) (cur : Cursor) : Except Error (CharClass × Cursor) :=
  match cur.rest with
  | '[' :: _ => do
    let inner := cur.drop 1
    let negated := inner.peek? == some '^'
    let body := if negated then inner.drop 1 else inner
    let (items, after) ← readItems strict cur.offset (body.rest.length + 1) body
    if items.isEmpty then .error (PatternFault.emptyClass.errorAt cur.offset)
    else pure (⟨negated, items⟩, after)
  | _ => .error (PatternFault.bracketExpected.errorAt cur.offset)

def read (strict : Bool) (cur : Cursor) : Except Error (CharClass × Cursor) :=
  match cur.rest with
  | '[' :: _ => readBracket strict cur
  | '\\' :: _ => do
    match ← readBackslash strict cur with
    | (.item part, after) => pure (⟨false, [part]⟩, after)
    | (.char _, _) => .error (PatternFault.escapeIsNoClass.errorAt cur.offset)
  | _ => .error (PatternFault.classExpected.errorAt cur.offset)

/-- Reads a text that is a class as a whole. -/
def parseWith (strict : Bool) (spec : List Char) : Except Error CharClass := do
  let (cls, after) ← read strict (.start spec)
  if after.atEnd then pure cls
  else .error (PatternFault.trailingAfterClass.errorAt after.offset)

def parse (spec : String) : Except Error CharClass := parseWith false spec.toList

/-- The class that a text spells, where needless escapes are refused. -/
def parseStrict (spec : String) : Except Error CharClass := parseWith true spec.toList

/-- Length in bytes of the bracket expression that a text begins with. -/
def scanBracket (text : List Char) : Except Error Nat := do
  let (_, after) ← readBracket false (.start text)
  pure after.offset

end CharClass

end RegexEngine
