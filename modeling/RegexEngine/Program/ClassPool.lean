import RegexEngine.Automaton.Matcher

/-!
The pool of classes of a program. The texts of all classes stand one after the other in one text,
and an instruction refers to its class by where the text of the class stands in bytes. The matcher
of each class that is referred to is made when the class comes into the pool.
-/

namespace RegexEngine

/-- A class that instructions may refer to. Places are byte offsets. -/
structure PoolEntry where
  spec : List Char
  offset : Nat
  length : Nat
  matcher : Matcher
deriving DecidableEq, Repr

/-- The classes of a program, the last one that came in first. -/
structure ClassPool where
  text : List Char
  entries : List PoolEntry
deriving DecidableEq, Repr

namespace ClassPool

def empty : ClassPool := ⟨[], []⟩

/-- A pool with this text, in which no class is known yet. -/
def ofText (text : List Char) : ClassPool := ⟨text, []⟩

def size (p : ClassPool) : Nat := Text.byteLength p.text

def get? (p : ClassPool) (offset length : Nat) : Option (List Char) :=
  Text.sliceBytes? p.text offset (offset + length)

def entry? (p : ClassPool) (offset length : Nat) : Option PoolEntry :=
  p.entries.find? fun e => e.offset == offset && e.length == length

def matcher? (p : ClassPool) (offset length : Nat) : Option Matcher :=
  (p.entry? offset length).map (·.matcher)

/-- Puts a class into the pool, unless its text is known, and answers with its place. -/
def intern (p : ClassPool) (spec : List Char) : Except Error ((Nat × Nat) × ClassPool) := do
  match p.entries.find? (·.spec == spec) with
  | some e => pure ((e.offset, e.length), p)
  | none =>
    let matcher ← Matcher.parse spec
    let offset := p.size
    let length := Text.byteLength spec
    if Text.maxWord32 < offset then throw LimitFault.poolBytes.error
    else if Text.maxWord32 < length then throw LimitFault.classBytes.error
    else pure ((offset, length), ⟨p.text ++ spec, ⟨spec, offset, length, matcher⟩ :: p.entries⟩)

def register (p : ClassPool) (offset length : Nat) : Except Error ClassPool :=
  if (p.entry? offset length).isSome then .ok p
  else if length = 0 then .error ProgramFault.emptyClassReference.error
  else
    match p.get? offset length with
    | none => .error (ProgramFault.classOutside offset length).error
    | some spec =>
      match Matcher.parse spec with
      | .error e => .error (ProgramFault.classRefused e.message).error
      | .ok matcher => .ok { p with entries := ⟨spec, offset, length, matcher⟩ :: p.entries }

end ClassPool

end RegexEngine
