import SessionPipeline.Message
import SessionPipeline.Wire.VarInt

/-!
Size-prefixed frames: a payload behind its length as a variable-length integer. `encode` writes one
frame; `decode` takes the complete frames off the front of a buffer and keeps the rest.
-/
namespace SessionPipeline.Frame

def defaultMaximum : UInt64 := 1048576

def encodeBytes (payload : Bytes) : Bytes := VarInt.encode payload.length.toUInt64 ++ payload

def encode (maximum : UInt64) (message : Message) : Except Failure Bytes :=
  match message.payload? with
  | none => .error (.encoding ("unsupported message type " ++ message.typeTag))
  | some payload =>
    if payload.length > maximum.toNat then
      .error (.encoding ("frame of " ++ toString payload.length ++ " bytes exceeds maximum of "
        ++ toString maximum.toNat))
    else .ok (encodeBytes payload)

/-- The frames read before decoding ended, the bytes kept, and the failure that ended it, if any.
A failure keeps the whole buffer. -/
structure Decoded where
  frames : List Bytes
  rest : Bytes
  failure : Option Failure := none
  deriving DecidableEq, Repr

/-- One look at a buffer. A complete frame has a length of `consumed` bytes in front and `length`
bytes of payload behind it. -/
inductive Head
  | incomplete
  | frame (consumed : Nat) (length : UInt64)
  | failed (failure : Failure)
  deriving DecidableEq, Repr

def oversized (maximum length : UInt64) : Failure :=
  .decoding ("declared frame length " ++ toString length.toNat ++ " exceeds maximum of "
    ++ toString maximum.toNat)

/-- Looks at `position` of a buffer of `size` bytes, `rest` being its bytes from there on. Positions
and sizes are words, and so is the arithmetic on them. -/
def head (maximum size position : UInt64) (rest : Bytes) : Head :=
  match VarInt.decode rest 0 with
  | .error failure => .failed failure
  | .ok none => .incomplete
  | .ok (some (consumed, length)) =>
    if length > maximum then .failed (oversized maximum length)
    else if size - position - consumed.toUInt64 < length then .incomplete
    else .frame consumed length

/-- Each frame takes at least one byte, so `fuel` may be the number of bytes in the buffer. -/
def decodeLoop (maximum size : UInt64) : Nat → UInt64 → Bytes → Decoded
  | 0, _, rest => ⟨[], rest, none⟩
  | fuel + 1, position, rest =>
    match head maximum size position rest with
    | .incomplete => ⟨[], rest, none⟩
    | .failed failure => ⟨[], rest, some failure⟩
    | .frame consumed length =>
      let body := rest.drop consumed
      let later := decodeLoop maximum size fuel (position + (consumed.toUInt64 + length))
        (body.drop length.toNat)
      { later with frames := body.take length.toNat :: later.frames }

def decode (maximum : UInt64) (buffer : Bytes) : Decoded :=
  let decoded := decodeLoop maximum buffer.length.toUInt64 buffer.length 0 buffer
  if decoded.failure.isSome then { decoded with rest := buffer } else decoded

end SessionPipeline.Frame
