import SessionPipeline.Script

/-!
Computations on a pipeline. A failure keeps what was done before it; running out of fuel is apart
from every failure and nothing catches it. Work that may run application code, or go round as often
as application code demands, is described as a task and handed to `perform`, so every operation is a
plain definition in terms of how tasks are performed.
-/
namespace SessionPipeline

structure World (σ : Type) where
  store : Store := {}
  own : σ
  code : Array (Invocation → Script σ) := #[]

inductive Stop
  | failed (failure : Failure)
  | outOfFuel
  deriving DecidableEq, Repr

abbrev Effect (σ α : Type) := EStateM Stop (World σ) α

/-- Work that is not bounded by the data at hand. -/
inductive Task
  | run (code : CodeId) (how : Invocation)
  | deliver (filter : FilterId) (handle : Handle) (session : SessionRef) (event : Event)
  | fire (session : SessionRef) (event : Event)
  | drain (processor : ProcessorId) (session : SessionRef)
  | clear (session : SessionRef)
  | failPending (session : SessionRef) (dropped : Nat)

abbrev Perform (σ : Type) := Task → Effect σ Reply

namespace Effect

variable {σ α : Type}

def fail (failure : Failure) : Effect σ α := throw (.failed failure)

def ofExcept : Except Failure α → Effect σ α
  | .ok a => pure a
  | .error failure => fail failure

/-- The result or the failure; running out of fuel goes through. -/
def attempt (body : Effect σ α) : Effect σ (Except Failure α) := fun w =>
  match body w with
  | .ok a w => .ok (.ok a) w
  | .error (.failed failure) w => .ok (.error failure) w
  | .error .outOfFuel w => .error .outOfFuel w

def store : Effect σ Store := return (← get).store

def modifyStore (change : Store → Store) : Effect σ Unit :=
  modify fun w => { w with store := change w.store }

def session (ref : SessionRef) : Effect σ Session := return (← store).session ref

def sessionId (ref : SessionRef) : Effect σ Nat := return (← session ref).id

def modifySession (ref : SessionRef) (change : Session → Session) : Effect σ Unit :=
  modifyStore fun s => { s with sessions := s.sessions.modify ref change }

def chain (ref : SessionRef) : Effect σ Chain := return (← session ref).chain

def modifyChain (ref : SessionRef) (change : Chain → Chain) : Effect σ Unit :=
  modifySession ref fun s => { s with chain := change s.chain }

def filter (id : FilterId) : Effect σ Filter := return (← store).filter id

def modifyFilter (id : FilterId) (change : Filter → Filter) : Effect σ Unit :=
  modifyStore fun s => { s with filters := s.filters.modify id change }

def request (id : RequestId) : Effect σ WriteRequest := return (← store).request id

def newFilter (filter : Filter) : Effect σ FilterId := do
  let id := (← store).filters.size
  modifyStore fun s => { s with filters := s.filters.push filter }
  return id

def newRequest (request : WriteRequest) : Effect σ RequestId := do
  let id := (← store).requests.size
  modifyStore fun s => { s with requests := s.requests.push request }
  return id

def newFuture : Effect σ FutureId := do
  let id := (← store).futures.size
  modifyStore fun s => { s with futures := s.futures.push {} }
  return id

def observe (observation : Observation) : Effect σ Unit :=
  modifyStore fun s => { s with journal := observation :: s.journal }

def emit (emissions : List Logging.Emission) : Effect σ Unit :=
  modifyStore fun s => { s with journal := (emissions.map .emitted).reverse ++ s.journal }

def logBytes (logger : String) (level : Logging.Level) (text : Bytes)
    (context : Logging.Context := {}) : Effect σ Unit := do
  let (emissions, logging) := (← store).logging.log (Bytes.ofString logger) level text context
  modifyStore fun s => { s with logging := logging }
  emit emissions

def log (logger : String) (level : Logging.Level) (text : String) : Effect σ Unit :=
  logBytes logger level (Bytes.ofString text)

def runCode (perform : Perform σ) (code : CodeId) (how : Invocation) : Effect σ Unit := do
  let _ ← perform (.run code how)

end Effect
end SessionPipeline
