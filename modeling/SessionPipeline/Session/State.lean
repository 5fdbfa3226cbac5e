/-!
The life of a session. It only moves forward: created, opened, closing, closed.
-/
namespace SessionPipeline

inductive SessionState
  | created
  | opened
  | closing
  | closed
  deriving DecidableEq, Repr, Inhabited

namespace SessionState

def all : List SessionState := [created, opened, closing, closed]

def name : SessionState → String
  | created => "Created"
  | opened => "Opened"
  | closing => "Closing"
  | closed => "Closed"

def nameOfCode (code : Int) : String :=
  if code < 0 then "Unknown" else ((all[code.toNat]?).map name).getD "Unknown"

def rank : SessionState → Nat
  | created => 0
  | opened => 1
  | closing => 2
  | closed => 3

/-- Nothing is written any more. -/
def finishing : SessionState → Bool
  | closing | closed => true
  | _ => false

end SessionState
end SessionPipeline
