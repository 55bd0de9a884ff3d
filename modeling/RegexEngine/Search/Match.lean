import RegexEngine.Search.Slots

/-!
Matches and what their capture groups have taken. Places are indices of characters; for those who
address the input by bytes there is `Match.inBytes`.
-/

namespace RegexEngine

/-- A capture group of a match. A group may have opened without closing, and the other way round. -/
structure CaptureGroup where
  /-- The number of the group, from 1 on. -/
  index : Nat
  name : Option String
  start : Option Nat
  stop : Option Nat
deriving DecidableEq, Repr

namespace CaptureGroup

def span? (g : CaptureGroup) : Option (Nat × Nat) :=
  match g.start, g.stop with
  | some start, some stop => if start ≤ stop then some (start, stop) else none
  | _, _ => none

def text? (g : CaptureGroup) (input : Array Char) : Option String :=
  g.span?.map fun (start, stop) => String.ofList (input.extract start stop).toList

def inBytes (g : CaptureGroup) (input : Array Char) : CaptureGroup :=
  { g with
    start := g.start.map (Text.byteOffset input)
    stop := g.stop.map (Text.byteOffset input) }

end CaptureGroup

structure Match where
  start : Nat
  stop : Nat
  groups : List CaptureGroup
deriving DecidableEq, Repr

namespace Match

def isEmpty (m : Match) : Bool := m.start == m.stop

def textIn (m : Match) (input : Array Char) : String :=
  String.ofList (input.extract m.start m.stop).toList

def group? (m : Match) (index : Nat) : Option CaptureGroup :=
  if index = 0 then none else m.groups[index - 1]?

/-- The first group with a name. -/
def named? (m : Match) (name : String) : Option CaptureGroup :=
  m.groups.find? (·.name == some name)

def inBytes (m : Match) (input : Array Char) : Match :=
  ⟨Text.byteOffset input m.start, Text.byteOffset input m.stop, m.groups.map (·.inBytes input)⟩

def groupText (g : CaptureGroup) : String :=
  " " ++ toString g.index ++ "=" ++
    match g.span? with
    | some (start, stop) => toString start ++ ".." ++ toString stop
    | none => "-"

def text (m : Match) : String :=
  toString m.start ++ ".." ++ toString m.stop ++ String.join (m.groups.map groupText)

end Match

end RegexEngine
