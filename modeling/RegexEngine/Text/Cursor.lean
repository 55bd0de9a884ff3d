import RegexEngine.Text.Basic

/-!
Places in a text. A cursor holds the characters that are still to be read and the number of bytes
before them, so that what is read can be reported by byte offsets.
-/

namespace RegexEngine.Text

structure Cursor where
  offset : Nat
  rest : List Char
deriving DecidableEq, Repr

namespace Cursor

def start (text : List Char) : Cursor := ⟨0, text⟩

/-- The place after the next `n` characters, or the end. -/
def drop : Nat → Cursor → Cursor
  | 0, cur => cur
  | _ + 1, ⟨offset, []⟩ => ⟨offset, []⟩
  | n + 1, ⟨offset, c :: rest⟩ => drop n ⟨offset + c.utf8Size, rest⟩

def peek? (cur : Cursor) : Option Char := cur.rest.head?

def next (cur : Cursor) : Cursor := cur.drop 1

def endOffset (cur : Cursor) : Nat := cur.offset + byteLength cur.rest

def atEnd (cur : Cursor) : Bool := cur.rest.isEmpty

def looksAt (cur : Cursor) (lead : String) : Bool := beginsWith lead.toList cur.rest

theorem rest_drop (n : Nat) (cur : Cursor) : (cur.drop n).rest = cur.rest.drop n := by
  induction n generalizing cur with
  | zero => rfl
  | succ n ih =>
    obtain ⟨offset, rest⟩ := cur
    cases rest with
    | nil => rfl
    | cons c rest => simpa [drop] using ih ⟨offset + c.utf8Size, rest⟩

theorem length_rest_drop (n : Nat) (cur : Cursor) :
    (cur.drop n).rest.length = cur.rest.length - n := by
  simp [rest_drop]

end Cursor

end RegexEngine.Text
