import RegexEngine.Program.Basic
import RegexEngine.SyntaxTree.Parser

/-!
Programs as bytes. A stored program starts with a mark, the order of bytes that it was written in,
the version of the format, and the flags, the numbers of instructions and groups, and the length of
the pattern. Then come the instructions, each as its number, three bytes of padding and four words;
the pattern, which ends with a zero byte; and the class pool with its length before it.

Bytes may come from anywhere, so everything is checked when they are read. The names of groups are
not stored: they are read from the pattern.
-/

namespace RegexEngine

inductive ByteOrder
  | little | big
deriving DecidableEq, Repr

namespace ByteOrder

def swapped : ByteOrder → ByteOrder
  | little => big
  | big => little

def encode (order : ByteOrder) (n : Nat) : List UInt8 :=
  let bytes := [n, n / 0x100, n / 0x10000, n / 0x1000000].map UInt8.ofNat
  match order with
  | little => bytes
  | big => bytes.reverse

def decode (order : ByteOrder) (bytes : List UInt8) : Nat :=
  let ordered := match order with
    | little => bytes
    | big => bytes.reverse
  ordered.foldr (fun byte rest => byte.toNat + 256 * rest) 0

end ByteOrder

namespace Program

def magic : List UInt8 := "RIFT".toList.map fun c => UInt8.ofNat c.toNat

/-- The word that shows the order of bytes. -/
def orderMark : Nat := 0x01020304

def formatVersion : Nat := 1

/-- Size in bytes of what comes before the instructions. -/
def headerSize : Nat := 28

def instrSize : Nat := 20

def boolWord (b : Bool) : Nat := if b then 1 else 0

def operands : Instr → List Nat
  | .nop | .accept | .fail => [0, 0, 0, 0]
  | .char c nocase => [c.toNat, boolWord nocase, 0, 0]
  | .cls offset length => [offset, length, 0, 0]
  | .any dotAll => [boolWord dotAll, 0, 0, 0]
  | .jump target => [target, 0, 0, 0]
  | .split first second => [first, second, 0, 0]
  | .openGroup group | .closeGroup group => [group, 0, 0, 0]
  | .repeatStart min max greedy stop =>
    [min, max.getD Text.maxWord32, boolWord greedy, stop]
  | .repeatEnd start => [start, 0, 0, 0]
  | .boundary marks => [marks.bits.toNat, 0, 0, 0]
  | .backref group nocase => [group, boolWord nocase, 0, 0]
  | .look kind body next => [body, next, boolWord kind.isBehind, 0]

def encodeInstr (order : ByteOrder) (i : Instr) : List UInt8 :=
  UInt8.ofNat i.opcode :: 0 :: 0 :: 0 :: (operands i).flatMap order.encode

def lengthWord (length : Nat) : Except Error Nat :=
  if length ≤ Text.maxWord32 then .ok length else .error LimitFault.programBytes.error

def patternBytes (p : Program) : List UInt8 :=
  match p.source with
  | some source => Text.utf8 source ++ [0]
  | none => []

def serialize (p : Program) (order : ByteOrder) : Except Error (List UInt8) := do
  let pattern := p.patternBytes
  let pool := Text.utf8 (String.ofList p.classes.text)
  let patternLength ← lengthWord pattern.length
  let count ← lengthWord p.length
  let groups ← lengthWord p.groupCount
  let poolLength ← lengthWord pool.length
  let header := [orderMark, formatVersion, p.flags.bits.toNat, count, groups, patternLength]
  pure (magic ++ header.flatMap order.encode
    ++ p.instrs.toList.flatMap (encodeInstr order)
    ++ pattern ++ order.encode poolLength ++ pool)

/-- A reader takes what it reads from the front of the bytes. -/
abbrev Reader (α : Type) := StateT (List UInt8) (Except Error) α

def takeBytes (size : Nat) : Reader (List UInt8) := do
  let taken := (← get).take size
  if taken.length = size then
    modify (·.drop size)
    pure taken
  else throw ProgramFault.truncated.error

def takeWord (order : ByteOrder) : Reader Nat := do pure (order.decode (← takeBytes 4))

def wordBool (opcode word : Nat) : Except Error Bool :=
  match word with
  | 0 => .ok false
  | 1 => .ok true
  | _ => .error (ProgramFault.badBoolean word opcode).error

def decodeInstr (opcode a b c d : Nat) : Except Error Instr :=
  match opcode with
  | 0x00 => .ok .nop
  | 0x01 =>
    match charOfCode? a with
    | some found => do pure (.char found (← wordBool opcode b))
    | none => .error (ProgramFault.badCharacter a).error
  | 0x02 => .ok (.cls a b)
  | 0x03 => do pure (.any (← wordBool opcode a))
  | 0x04 => .ok (.jump a)
  | 0x05 => .ok (.split a b)
  | 0x06 => .ok (.openGroup a)
  | 0x07 => .ok (.closeGroup a)
  | 0x08 => do pure (.repeatStart a (Instr.bound (some b)) (← wordBool opcode c) d)
  | 0x09 => .ok (.repeatEnd a)
  | 0x0A =>
    let marks : Marks := ⟨UInt32.ofNat a⟩
    if Marks.known.contains marks then .ok (.boundary marks)
    else .error ProgramFault.unknownAssertions.error
  | 0x0B => do pure (.backref a (← wordBool opcode b))
  | 0x0C => do pure (.look (Instr.lookKind false (← wordBool opcode c)) a b)
  | 0x0D => do pure (.look (Instr.lookKind true (← wordBool opcode c)) a b)
  | 0x0E => .ok .accept
  | 0x0F => .ok .fail
  | _ => .error (ProgramFault.unknownOpcode opcode).error

/-- Takes an instruction. The padding is not looked at. -/
def takeInstr (order : ByteOrder) : Reader Instr := do
  let opcode := (← takeBytes 4).headD 0
  let a ← takeWord order
  let b ← takeWord order
  let c ← takeWord order
  let d ← takeWord order
  decodeInstr opcode.toNat a b c d

def takeInstrs (order : ByteOrder) : Nat → Reader (List Instr)
  | 0 => pure []
  | count + 1 => do
    let i ← takeInstr order
    pure (i :: (← takeInstrs order count))

def orderOf? (mark : List UInt8) : Option ByteOrder :=
  if ByteOrder.little.decode mark = orderMark then some .little
  else if ByteOrder.big.decode mark = orderMark then some .big
  else none

/-- Takes the pattern, which is as long as the header says and ends with its first zero byte. -/
def takePattern (length : Nat) : Reader (Option String) := do
  if length = 0 then pure none
  else
    let bytes ← takeBytes length
    if bytes.contains 0 then
      match Text.ofUtf8? (bytes.takeWhile (· ≠ 0)) with
      | some source => pure (some source)
      | none => throw ProgramFault.patternEncoding.error
    else throw ProgramFault.unendedPattern.error

def takePool (order : ByteOrder) : Reader (List Char) := do
  match Text.ofUtf8? (← takeBytes (← takeWord order)) with
  | some text => pure text.toList
  | none => throw ProgramFault.poolEncoding.error

/-- The names of the groups of a pattern. A pattern that cannot be read declares none. -/
def declaredGroups (source : Option String) (flags : Flags) : List (Option String) :=
  match source with
  | none => []
  | some source =>
    match SyntaxTree.parse source.toList flags defaultMaxDepth with
    | .ok tree => tree.groups
    | .error _ => []

def registerAll (pool : ClassPool) (code : List Instr) : Except Error ClassPool :=
  code.foldlM (fun pool i =>
    match i with
    | .cls offset length => pool.register offset length
    | _ => .ok pool) pool

/-- Takes the rest of a program, after the order of bytes. -/
def takeBody (order : ByteOrder) (maxGroups : Nat) : Reader Program := do
  let version ← takeWord order
  if version = 0 ∨ formatVersion < version then
    throw (ProgramFault.unknownVersion version).error
  let flags ← match Flags.ofBits? (UInt32.ofNat (← takeWord order)) with
    | some flags => pure flags
    | none => throw ProgramFault.unknownFlags.error
  let count ← takeWord order
  let groupCount ← takeWord order
  let patternLength ← takeWord order
  if maxGroups < groupCount then throw (ProgramFault.tooManyGroups groupCount maxGroups).error
  if (← get).length < count * instrSize then throw ProgramFault.truncatedInstructions.error
  let code ← takeInstrs order count
  let source ← takePattern patternLength
  let names := declaredGroups source flags
  let p : Program := ⟨code.toArray, groupCount, names, flags, source, .empty⟩
  let used := p.referredGroups
  if max used names.length < groupCount then throw (ProgramFault.unusedGroups groupCount used).error
  let pool ← takePool order
  let classes ← registerAll (.ofText pool) code
  if !(← get).isEmpty then throw ProgramFault.trailingBytes.error
  pure { p with classes := classes }

/-- Reads a program with at most this many groups. It is not validated. -/
def read (bytes : List UInt8) (maxGroups : Nat) : Except Error Program :=
  if bytes.length < headerSize then .error ProgramFault.truncatedHeader.error
  else if bytes.take 4 ≠ magic then .error ProgramFault.notAProgram.error
  else
    match orderOf? ((bytes.drop 4).take 4) with
    | none => .error ProgramFault.badByteOrder.error
    | some order => (takeBody order maxGroups).run' (bytes.drop 8)

def deserialize (bytes : List UInt8) (maxGroups : Nat) : Except Error Program := do
  let p ← read bytes maxGroups
  p.validate
  pure p

end Program

end RegexEngine
