import SessionPipeline.Wire.Bytes

/-!
Payloads that travel through a pipeline. Text is the bytes that spell it; nothing obliges them to be
well-formed UTF-8.
-/
namespace SessionPipeline

inductive Message
  | empty
  | text (content : Bytes)
  | bytes (content : Bytes)
  | int (n : Int)
  | bool (b : Bool)
  | double
  deriving DecidableEq, Repr, Inhabited

namespace Message

def ofString (s : String) : Message := text (Bytes.ofString s)

/-- The bytes a frame would carry, for the payloads that have a byte form. -/
def payload? : Message → Option Bytes
  | text content => some content
  | bytes content => some content
  | _ => none

def typeTag : Message → String
  | empty => "v"
  | text _ => "NSt7__cxx1112basic_stringIcSt11char_traitsIcESaIcEEE"
  | bytes _ => "St6vectorIhSaIhEE"
  | int _ => "i"
  | bool _ => "b"
  | double => "d"

def describe : Message → Bytes
  | empty => Bytes.ofString "empty"
  | text content => Bytes.ofString "\"" ++ content ++ Bytes.ofString "\""
  | bytes content => Bytes.ofString (toString content.length ++ " bytes")
  | m => Bytes.ofString m.typeTag

end Message
end SessionPipeline
