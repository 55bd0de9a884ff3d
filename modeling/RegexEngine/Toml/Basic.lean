/-!
TOML documents: tables of values by their keys. Every table remembers how it came about, because
that decides what may still be added to it. Headers and dotted keys both make the tables on their
way, but a table of one kind is not completed by the other, and no key is set twice.
-/

namespace RegexEngine.Toml

inductive Origin
  /-- It has a header of its own. -/
  | header
  /-- It stands on the way of a header. -/
  | parent
  /-- It stands on the way of a dotted key. -/
  | dotted
deriving DecidableEq, Repr

/-- A value, or a table. Numbers with fractions and points in time are kept as they were written. -/
inductive Node
  | text (content : String)
  | integer (value : Int)
  | float (written : String)
  | boolean (value : Bool)
  | time (written : String)
  | array (items : List Node)
  /-- A table inside braces. It is complete. -/
  | inline (fields : List (String × Node))
  | table (origin : Origin) (fields : List (String × Node))
  /-- The tables that share a header, in their order. There is at least one. -/
  | tables (items : List (List (String × Node)))

/-- What a table holds, in the order of the keys. -/
abbrev Fields := List (String × Node)

namespace Fields

/-- Replaces the value of a key, or adds it at the end. -/
def set (key : String) (node : Node) : Fields → Fields
  | [] => [(key, node)]
  | (k, old) :: rest => if k = key then (k, node) :: rest else (k, old) :: set key node rest

def add? (key : String) (node : Node) (fields : Fields) : Option Fields :=
  if (fields.lookup key).isSome then none else some (fields ++ [(key, node)])

def changeLast? (change : Fields → Option Fields) (items : List Fields) : Option (List Fields) := do
  let last ← items.getLast?
  pure (items.dropLast ++ [← change last])

/-- Changes the table at a path. Tables that are missing on the way are made. A path leads into the
last of the tables that share a header, but not into a value. -/
def within? (change : Fields → Option Fields) : List String → Fields → Option Fields
  | [], fields => change fields
  | key :: rest, fields =>
    match fields.lookup key with
    | none => (within? change rest []).map fun inner => set key (.table .parent inner) fields
    | some (.table origin inner) =>
      (within? change rest inner).map fun inner => set key (.table origin inner) fields
    | some (.tables items) =>
      (changeLast? (within? change rest) items).map fun items => set key (.tables items) fields
    | some _ => none

/-- Adds a value by a dotted key. The tables on the way must not have headers of their own, and the
one that the value goes into must have been made by a dotted key. -/
def put? (node : Node) : List String → Fields → Option Fields
  | [], _ => none
  | [key], fields => add? key node fields
  | key :: next :: rest, fields =>
    match fields.lookup key with
    | none => (put? node (next :: rest) []).map fun inner => set key (.table .dotted inner) fields
    | some (.table .dotted inner) =>
      (put? node (next :: rest) inner).map fun inner => set key (.table .dotted inner) fields
    | some (.table .parent inner) =>
      if rest.isEmpty then none
      else (put? node (next :: rest) inner).map fun inner => set key (.table .parent inner) fields
    | some (.tables items) =>
      if rest.isEmpty then none
      else
        (changeLast? (put? node (next :: rest)) items).map fun items =>
          set key (.tables items) fields
    | some _ => none

/-- Gives a table a header. It is new, or stood on the way of another header so far. -/
def open? (key : String) (fields : Fields) : Option Fields :=
  match fields.lookup key with
  | none => add? key (.table .header []) fields
  | some (.table .parent inner) => some (set key (.table .header inner) fields)
  | some _ => none

def append? (key : String) (fields : Fields) : Option Fields :=
  match fields.lookup key with
  | none => add? key (.tables [[]]) fields
  | some (.tables items) => some (set key (.tables (items ++ [[]])) fields)
  | some _ => none

end Fields

/-- A line of a document that says something. Keys and headers are paths. -/
inductive Line
  | entry (key : List String) (value : Node)
  | header (path : List String)
  /-- The header of one of several tables. -/
  | item (path : List String)

/-- A document up to some line: what it holds, and the path of the last header. -/
structure Document where
  fields : Fields
  current : List String

namespace Document

def empty : Document := ⟨[], []⟩

def start? (d : Document) (path : List String) (make : String → Fields → Option Fields) :
    Option Document := do
  let key ← path.getLast?
  pure ⟨← Fields.within? (make key) path.dropLast d.fields, path⟩

def add? (d : Document) : Line → Option Document
  | .entry key value => do
    pure { d with fields := ← Fields.within? (Fields.put? value key) d.current d.fields }
  | .header path => d.start? path Fields.open?
  | .item path => d.start? path Fields.append?

/-- What some lines say together, unless they contradict each other. -/
def ofLines? (lines : List Line) : Option Fields :=
  (lines.foldlM add? empty).map (·.fields)

end Document

end RegexEngine.Toml
