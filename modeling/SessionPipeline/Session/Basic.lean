import SessionPipeline.Chain.Arena
import SessionPipeline.Queue.Ring
import SessionPipeline.Session.Request
import SessionPipeline.Session.State

/-!
A session: its chain, the queue of requests that reached the head, its counters and the attributes
that filters keep on it. A filter's own attributes have keys that no other filter shares.
-/
namespace SessionPipeline

abbrev HandlerId := Nat
abbrev ProcessorId := Nat

inductive AttributeKey
  | named (name : String)
  | pending (codec : FilterId)
  /-- The entry name under which a logging filter was added. -/
  | entryName (filter : FilterId)
  deriving DecidableEq, Repr, Inhabited

structure Session where
  id : Nat
  handler : HandlerId
  processor : ProcessorId
  queue : Ring RequestId
  state : SessionState := .created
  /-- The states before this one, latest first. -/
  past : List SessionState := []
  attributes : List (AttributeKey × Message) := []
  readMessages : Nat := 0
  writtenMessages : Nat := 0
  chain : Chain := .empty
  deriving Inhabited

namespace Session

def defaultCapacity : UInt64 := 16

def attribute? (s : Session) (key : AttributeKey) : Option Message := s.attributes.lookup key

def setAttribute (s : Session) (key : AttributeKey) (value : Message) : Session :=
  { s with attributes := (key, value) :: s.attributes.filter (·.1 != key) }

def removeAttribute (s : Session) (key : AttributeKey) : Session :=
  { s with attributes := s.attributes.filter (·.1 != key) }

def textAttribute? (s : Session) (key : AttributeKey) : Option Bytes :=
  match s.attribute? key with
  | some (.text t) => some t
  | _ => none

def bytesAttribute? (s : Session) (key : AttributeKey) : Option Bytes :=
  match s.attribute? key with
  | some (.bytes b) => some b
  | _ => none

def pendingOf (s : Session) (codec : FilterId) : Bytes :=
  (s.bytesAttribute? (.pending codec)).getD []

def enter (s : Session) (state : SessionState) : Session :=
  { s with state := state, past := s.state :: s.past }

end Session

inductive Handler
  | adapter
  | custom (code : CodeId)
  deriving DecidableEq, Repr, Inhabited

/-- The transport's end. A loopback completes every request it takes and counts it. -/
inductive Processor
  | loopback (flushed : Nat)
  | custom (code : CodeId)
  deriving DecidableEq, Repr

namespace Processor

instance : Inhabited Processor := ⟨loopback 0⟩

/-- One more request taken, which only a loopback counts. -/
def count : Processor → Processor
  | loopback flushed => loopback (flushed + 1)
  | p => p

end Processor

end SessionPipeline
