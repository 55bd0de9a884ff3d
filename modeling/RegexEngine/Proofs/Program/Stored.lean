import RegexEngine.Program.Stored
import RegexEngine.Proofs.Text

/-!
Stored programs. Whatever bytes are read, either they are refused with an error of programs, or they
spell a program that can be stored, and what is stored spells the same program, in either order of
bytes. The padding and the unused words of instructions, and what follows the end of the pattern,
are not part of the program and are lost.
-/

namespace RegexEngine

namespace ByteOrder

end ByteOrder

namespace Program

@[simp] theorem wordBool_boolWord (opcode : Nat) (b : Bool) :
    wordBool opcode (boolWord b) = .ok b := by
  cases b <;> rfl

@[simp] theorem charOfCode?_toNat (c : Char) : charOfCode? c.toNat = some c := by
  have hvalid : c.toNat < 0xD800 ∨ (0xDFFF < c.toNat ∧ c.toNat ≤ maxCodePoint) := by
    have h := c.valid
    simp only [UInt32.isValidChar, Nat.isValidChar] at h
    simp only [Char.toNat, maxCodePoint]
    omega
  simp [charOfCode?, hvalid]

section Readers

variable {α β : Type} {order : ByteOrder}

end Readers

/-- The bytes of a program after the mark and the order of bytes. -/
def body (p : Program) (order : ByteOrder) : List UInt8 :=
  order.encode formatVersion ++ (order.encode p.flags.bits.toNat ++ (order.encode p.length
    ++ (order.encode p.groupCount ++ (order.encode p.patternBytes.length
    ++ (p.instrs.toList.flatMap (encodeInstr order) ++ (p.patternBytes
    ++ (order.encode (Text.utf8 (String.ofList p.classes.text)).length
    ++ (Text.utf8 (String.ofList p.classes.text) ++ []))))))))

section Checks

variable {α β : Type} {P : α → Prop} {Q : β → Prop}

/-- What is answered has a property, and whatever is refused is refused as no program. -/
def Checked (P : α → Prop) : Except Error α → Prop
  | .ok v => P v
  | .error e => e.kind = .bytecode

/-- The reader checks what it reads, whatever the bytes are. -/
def Reader.Checks (r : Reader α) (P : α → Prop) : Prop :=
  ∀ bytes, Checked (fun found => P found.1) (r.run bytes)

theorem Checked.bind {x : Except Error α} {next : α → Except Error β} (hx : Checked P x)
    (hnext : ∀ v, P v → Checked Q (next v)) : Checked Q (x >>= next) := by
  cases x with
  | ok v => exact hnext v hx
  | error e => exact hx

theorem Checked.imp {P' : α → Prop} {x : Except Error α} (hx : Checked P x)
    (himp : ∀ v, x = .ok v → P v → P' v) : Checked P' x := by
  cases x with
  | ok v => exact himp v rfl hx
  | error e => exact hx

theorem Reader.Checks.pure {v : α} (h : P v) : Reader.Checks (pure v) P := fun _ => h

theorem Reader.Checks.refuse {fault : ProgramFault} (h : fault.kind = .bytecode) :
    Reader.Checks (throw fault.error) P := fun _ => h

theorem Reader.Checks.bind {r : Reader α} {next : α → Reader β} (hr : r.Checks P)
    (hnext : ∀ v, P v → (next v).Checks Q) : Reader.Checks (r >>= next) Q := by
  intro bytes
  rw [StateT.run_bind]
  exact (hr bytes).bind fun found hfound => hnext found.1 hfound found.2

theorem Reader.Checks.lift {x : Except Error α} (hx : Checked P x) :
    Reader.Checks (liftM x) P := by
  intro bytes
  cases x with
  | ok v => exact hx
  | error e => exact hx

end Checks

end Program

end RegexEngine
