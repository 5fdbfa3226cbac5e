import SessionPipeline.Failure
import SessionPipeline.Wire.Bytes

/-!
Variable-length integers: seven bits a byte, least significant group first, the high bit set on
every byte but the last. A 64-bit value takes one to ten bytes.
-/
namespace SessionPipeline.VarInt

def maxEncodedSize : Nat := 10

/-- At most `more` bytes continue: after nine groups of seven bits one bit of the value is left. -/
def encodeGroups : Nat → UInt64 → Bytes
  | 0, value => [value.toUInt8]
  | more + 1, value =>
    if value < 0x80 then [value.toUInt8]
    else (value.toUInt8 ||| 0x80) :: encodeGroups more (value >>> 7)

def encode (value : UInt64) : Bytes := encodeGroups 9 value

/-- Counts `size` groups and one more for each time that the value does not fit in the last of them. -/
def countGroups : Nat → Nat → UInt64 → Nat
  | 0, size, _ => size
  | more + 1, size, value => if value < 0x80 then size else countGroups more (size + 1) (value >>> 7)

def encodedSize (value : UInt64) : Nat := countGroups 9 1 value

/-- Reads groups with `consumed` bytes behind it, `result` gathered from them and the next group at
bit `shift`. `none` when the bytes end inside the integer; the tenth byte may carry only bit 63. -/
def decodeFrom (consumed : Nat) (result shift : UInt64) :
    Bytes → Except Failure (Option (Nat × UInt64))
  | [] => .ok none
  | byte :: rest =>
    if consumed + 1 == maxEncodedSize && byte > 0x01 then
      .error (.decoding "varint overflows 64 bits")
    else
      let result := result ||| (byte &&& 0x7f).toUInt64 <<< shift
      if byte &&& 0x80 == 0 then .ok (some (consumed + 1, result))
      else decodeFrom (consumed + 1) result (shift + 7) rest

def decode (bytes : Bytes) (offset : Nat) : Except Failure (Option (Nat × UInt64)) :=
  decodeFrom 0 0 0 (bytes.drop offset)

end SessionPipeline.VarInt
