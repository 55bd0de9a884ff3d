import RegexEngine.Automaton.Listing
import RegexEngine.SyntaxTree.Basic

/-!
Digests of patterns. A digest is a word of 64 bits that takes in further words one by one: it is
rotated by five bits, combined with the word, and multiplied by a fixed odd number. A text is taken
in as the words that its bytes spell, the least significant byte first, in pieces of eight bytes and
then of four, two and one, and ends with a byte that no text has.
-/

namespace RegexEngine

abbrev Digest := UInt64

namespace Digest

def factor : UInt64 := 0x517cc1b727220a95

def add (h : Digest) (word : UInt64) : Digest :=
  (((h <<< 5) ||| (h >>> 59)) ^^^ word) * factor

/-- The word that some bytes spell, the least significant one first. -/
def word (bytes : List UInt8) : UInt64 :=
  bytes.foldr (fun byte rest => byte.toUInt64 + rest * 256) 0

/-- Takes in pieces of eight bytes, and answers with what is left. -/
def addWords (h : Digest) : List UInt8 → Digest × List UInt8
  | a :: b :: c :: d :: e :: f :: g :: i :: rest =>
    addWords (h.add (word [a, b, c, d, e, f, g, i])) rest
  | rest => (h, rest)

def addPiece (size : Nat) (h : Digest) (bytes : List UInt8) : Digest × List UInt8 :=
  if size ≤ bytes.length then (h.add (word (bytes.take size)), bytes.drop size) else (h, bytes)

def addText (h : Digest) (text : String) : Digest :=
  let (h, bytes) := addWords h (Text.utf8 text)
  let (h, bytes) := addPiece 4 h bytes
  let (h, bytes) := addPiece 2 h bytes
  let (h, _) := addPiece 1 h bytes
  h.add 0xFF

def ofText (text : String) (flags : Flags) : Digest :=
  (addText 0 text).add flags.bits.toUInt64

/-- The digest of a pattern: of its source, or else of its tree, or else of its automaton, and of
its flags. -/
def ofContent (source : Option String) (root : Option Tree) (a : Automaton) (flags : Flags) :
    Digest :=
  match source, root with
  | some source, _ => ofText source flags
  | none, some root => ofText root.text flags
  | none, none => ofText a.listing flags

def text (h : Digest) : String := Text.hexPadded 16 h.toNat

end Digest

end RegexEngine
