import RegexEngine.Text.Basic

/-!
Bytes as text, two digits of base sixteen each.
-/

namespace RegexEngine.Hex

/-- Writes bytes with small letters. -/
def encode (bytes : List UInt8) : String :=
  String.join (bytes.map fun byte => Text.hexPadded 2 byte.toNat)

/-- The bytes of pairs of digits. A last digit without another one is left out. -/
def ofDigits : List Nat → List UInt8
  | high :: low :: rest => UInt8.ofNat (16 * high + low) :: ofDigits rest
  | _ => []

/-- Reads bytes. Characters that are no digits are passed over. -/
def decode (text : String) : List UInt8 := ofDigits (text.toList.filterMap Text.hexDigit?)

end RegexEngine.Hex
