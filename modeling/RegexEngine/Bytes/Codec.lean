import RegexEngine.Text.Basic

/-!
Compact binary forms. A codec writes values as bytes and reads them back from the front of a list of
bytes. Numbers take one byte below 251; larger ones have a mark and then two, four or eight bytes,
the least significant one first. A reader accepts a number that is written longer than it needs to
be, but none that exceeds its type.
-/

namespace RegexEngine

/-- A way to write values as bytes, and to read one from the front of some bytes. -/
structure Codec (α : Type) where
  encode : α → List UInt8
  decode : List UInt8 → Option (α × List UInt8)

namespace Codec

def littleEndian : Nat → Nat → List UInt8
  | 0, _ => []
  | size + 1, n => UInt8.ofNat n :: littleEndian size (n / 256)

def ofLittleEndian (bytes : List UInt8) : Nat :=
  bytes.foldr (fun byte rest => byte.toNat + 256 * rest) 0

def takeBytes? (size : Nat) (bytes : List UInt8) : Option (List UInt8 × List UInt8) :=
  let taken := bytes.take size
  if taken.length = size then some (taken, bytes.drop size) else none

def encodeNumber (n : Nat) : List UInt8 :=
  if n < 251 then [UInt8.ofNat n]
  else if n < 0x10000 then 0xFB :: littleEndian 2 n
  else if n < 0x100000000 then 0xFC :: littleEndian 4 n
  else 0xFD :: littleEndian 8 n

def decodeSized (size : Nat) (bytes : List UInt8) : Option (Nat × List UInt8) := do
  let (found, rest) ← takeBytes? size bytes
  pure (ofLittleEndian found, rest)

def decodeNumber : List UInt8 → Option (Nat × List UInt8)
  | [] => none
  | first :: rest =>
    if first < 251 then some (first.toNat, rest)
    else if first = 0xFB then decodeSized 2 rest
    else if first = 0xFC then decodeSized 4 rest
    else if first = 0xFD then decodeSized 8 rest
    else none

def below (bound : Nat) : Codec Nat where
  encode := encodeNumber
  decode bytes := do
    let (n, rest) ← decodeNumber bytes
    if n < bound then pure (n, rest) else none

def word32 : Codec Nat := below 0x100000000

def word64 : Codec Nat := below 0x10000000000000000

/-- Signs are folded into the lowest bit. -/
def foldSign (n : Int) : Nat :=
  if 0 ≤ n then 2 * n.toNat else 2 * (-n).toNat - 1

def unfoldSign (n : Nat) : Int :=
  if n % 2 = 0 then (n / 2 : Nat) else -((n / 2 : Nat) : Int) - 1

def signed32 : Codec Int where
  encode n := encodeNumber (foldSign n)
  decode bytes := do
    let (n, rest) ← decodeNumber bytes
    let found := unfoldSign n
    if -0x80000000 ≤ found && found < 0x80000000 then pure (found, rest) else none

/-- Truth values take one byte, which is 0 or 1. -/
def bool : Codec Bool where
  encode b := [if b then 1 else 0]
  decode
    | 0 :: rest => some (false, rest)
    | 1 :: rest => some (true, rest)
    | _ => none

def pair {α β : Type} (first : Codec α) (second : Codec β) : Codec (α × β) where
  encode v := first.encode v.1 ++ second.encode v.2
  decode bytes := do
    let (a, rest) ← first.decode bytes
    let (b, rest) ← second.decode rest
    pure ((a, b), rest)

/-- Values that stand for others. -/
def via {α β : Type} (inner : Codec α) (wrap : α → β) (content : β → α) : Codec β where
  encode v := inner.encode (content v)
  decode bytes := do
    let (a, rest) ← inner.decode bytes
    pure (wrap a, rest)

/-- A value that may be missing: a truth value, and then the value. -/
def option {α : Type} (inner : Codec α) : Codec (Option α) where
  encode
    | none => [0]
    | some v => 1 :: inner.encode v
  decode
    | 0 :: rest => some (none, rest)
    | 1 :: rest => do
      let (v, rest) ← inner.decode rest
      pure (some v, rest)
    | _ => none

def decodeMany {α : Type} (inner : Codec α) : Nat → List UInt8 → Option (List α × List UInt8)
  | 0, bytes => some ([], bytes)
  | n + 1, bytes => do
    let (v, rest) ← inner.decode bytes
    let (vs, rest) ← decodeMany inner n rest
    pure (v :: vs, rest)

/-- Lists: their length, and then the values. -/
def list {α : Type} (inner : Codec α) : Codec (List α) where
  encode vs := encodeNumber vs.length ++ vs.flatMap inner.encode
  decode bytes := do
    let (length, rest) ← word64.decode bytes
    decodeMany inner length rest

/-- Texts: their length in bytes, and then the bytes. -/
def text : Codec String where
  encode s := encodeNumber (Text.utf8 s).length ++ Text.utf8 s
  decode bytes := do
    let (length, rest) ← word64.decode bytes
    let (found, rest) ← takeBytes? length rest
    let s ← Text.ofUtf8? found
    pure (s, rest)

/-- Reads a value from bytes that hold nothing else. -/
def decodeAll {α : Type} (codec : Codec α) (bytes : List UInt8) : Option α :=
  match codec.decode bytes with
  | some (v, []) => some v
  | _ => none

end Codec

end RegexEngine
