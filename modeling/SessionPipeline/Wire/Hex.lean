import SessionPipeline.Wire.Bytes

/-!
Hexadecimal text of byte strings, two lower-case digits a byte.
-/
namespace SessionPipeline

namespace Hex

def digit (n : Nat) : Char := "0123456789abcdef".toList.getD n '0'

def value? (c : Char) : Option Nat :=
  if '0' ≤ c ∧ c ≤ '9' then some (c.toNat - 48)
  else if 'a' ≤ c ∧ c ≤ 'f' then some (c.toNat - 87)
  else if 'A' ≤ c ∧ c ≤ 'F' then some (c.toNat - 55)
  else none

end Hex

namespace Bytes

def toHex (bytes : Bytes) : String :=
  String.ofList (bytes.flatMap fun b => [Hex.digit (b.toNat / 16), Hex.digit (b.toNat % 16)])

def ofDigits : List Char → Option Bytes
  | [] => some []
  | a :: b :: rest => do
    let high ← Hex.value? a
    let low ← Hex.value? b
    return (high * 16 + low).toUInt8 :: (← ofDigits rest)
  | _ => none

def ofHex? (s : String) : Option Bytes := ofDigits s.toList

end Bytes
end SessionPipeline
