import SessionPipeline.Fields
import SessionPipeline.Logging.Level
import SessionPipeline.Wire.Bytes

/-!
A log record. Its texts are bytes: nothing obliges a name or a message to be well-formed UTF-8.
-/
namespace SessionPipeline.Logging

/-- Texts under keys. -/
structure KeyValues where
  entries : List (Bytes × Bytes)
  rising : Rising entries
  deriving DecidableEq, Repr

namespace KeyValues

def none : KeyValues := ⟨[],.nil⟩

instance : Inhabited KeyValues := ⟨none⟩

def put (kv : KeyValues) (field : Bytes × Bytes) : KeyValues :=
  ⟨insertField field.1 field.2 kv.entries,rising_insertField _ _ kv.rising⟩

/-- The last of the texts that are given for a key stays. -/
def of (fields : List (Bytes × Bytes)) : KeyValues := fields.foldl put none

end KeyValues

structure Context where
  session : UInt64 := 0
  filter : Bytes := []
  event : Bytes := []
  component : Component := .root
  keyValues : KeyValues := .none
  deriving DecidableEq, Repr, Inhabited

structure Record where
  level : Level := .info
  message : Bytes
  logger : Bytes := []
  /-- Milliseconds since the epoch, in universal time. -/
  timestamp : Int := 0
  thread : Option Nat := none
  process : Int := 0
  file : Option Bytes := none
  line : Int := 0
  function : Option Bytes := none
  context : Context := {}
  deriving DecidableEq, Repr, Inhabited

namespace Record

/-- File and function are bounded by their first zero byte. -/
def fileText (r : Record) : Option Bytes := r.file.map Bytes.untilZero

def functionText (r : Record) : Option Bytes := r.function.map Bytes.untilZero

def threadText (r : Record) : Bytes :=
  match r.thread with
  | some id => Bytes.ofString (toString id)
  | none => Bytes.ofString "thread::id of a non-executing thread"

end Record
end SessionPipeline.Logging
