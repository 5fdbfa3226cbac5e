import SessionPipeline.Filter.Basic

/-!
Write requests and the futures that tell how they ended. A request is immutable; a wrapper carries
another payload, shares the future of the request it wraps and keeps a link to it.
-/
namespace SessionPipeline

abbrev FutureId := Nat

structure WriteRequest where
  message : Message
  future : Option FutureId
  inner : Option RequestId := none
  deriving DecidableEq, Repr, Inhabited

namespace WriteRequest

def isWrapped (r : WriteRequest) : Bool := r.inner.isSome

end WriteRequest

inductive Outcome
  | written
  | failed (cause : Option Failure)
  deriving DecidableEq, Repr

/-- Completed at most once; the listeners wait in the order they were registered. -/
structure WriteFuture where
  outcome : Option Outcome := none
  listeners : List CodeId := []
  deriving DecidableEq, Repr, Inhabited

namespace WriteFuture

def isDone (f : WriteFuture) : Bool := f.outcome.isSome

def isWritten (f : WriteFuture) : Bool := f.outcome == some .written

def cause (f : WriteFuture) : Option Failure :=
  match f.outcome with
  | some (.failed cause) => cause
  | _ => none

end WriteFuture
end SessionPipeline
