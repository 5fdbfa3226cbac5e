import SessionPipeline.Failure
import SessionPipeline.Message

/-!
The nine events of a session. Seven travel inbound, from the head of a chain to the handler; a write
and a close travel outbound, from the tail to the processor.
-/
namespace SessionPipeline

inductive IdleStatus
  | reader
  | writer
  | both
  | other (code : Int)
  deriving DecidableEq, Repr, Inhabited

namespace IdleStatus

def ofCode : Int → IdleStatus
  | 0 => reader
  | 1 => writer
  | 2 => both
  | code => other code

def name : IdleStatus → String
  | reader => "reader idle"
  | writer => "writer idle"
  | both => "both idle"
  | other _ => "unknown"

end IdleStatus

inductive EventKind
  | sessionCreated
  | sessionOpened
  | sessionClosed
  | sessionIdle
  | exceptionCaught
  | messageReceived
  | messageSent
  | filterWrite
  | filterClose
  deriving DecidableEq, Repr, Inhabited

namespace EventKind

def all : List EventKind :=
  [sessionCreated, sessionOpened, sessionClosed, sessionIdle, exceptionCaught, messageReceived,
   messageSent, filterWrite, filterClose]

def name : EventKind → String
  | sessionCreated => "sessionCreated"
  | sessionOpened => "sessionOpened"
  | sessionClosed => "sessionClosed"
  | sessionIdle => "sessionIdle"
  | exceptionCaught => "exceptionCaught"
  | messageReceived => "messageReceived"
  | messageSent => "messageSent"
  | filterWrite => "filterWrite"
  | filterClose => "filterClose"

def ofName? (name : String) : Option EventKind := all.find? (·.name == name)

/-- The name of the event with a number, numbers beyond the nine having none of their own. -/
def nameOfCode (code : Int) : String :=
  if code < 0 then "unknown" else ((all[code.toNat]?).map name).getD "unknown"

def outbound : EventKind → Bool
  | filterWrite | filterClose => true
  | _ => false

end EventKind

abbrev RequestId := Nat

/-- An event with what it carries. A cause is absent when nothing is known of it. -/
inductive Event
  | sessionCreated
  | sessionOpened
  | sessionClosed
  | sessionIdle (status : IdleStatus)
  | exceptionCaught (cause : Option Failure)
  | messageReceived (message : Message)
  | messageSent (request : RequestId)
  | filterWrite (request : RequestId)
  | filterClose
  deriving DecidableEq, Repr, Inhabited

namespace Event

def kind : Event → EventKind
  | sessionCreated => .sessionCreated
  | sessionOpened => .sessionOpened
  | sessionClosed => .sessionClosed
  | sessionIdle _ => .sessionIdle
  | exceptionCaught _ => .exceptionCaught
  | messageReceived _ => .messageReceived
  | messageSent _ => .messageSent
  | filterWrite _ => .filterWrite
  | filterClose => .filterClose

def outbound (e : Event) : Bool := e.kind.outbound

end Event
end SessionPipeline
