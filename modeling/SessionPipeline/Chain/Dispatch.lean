import SessionPipeline.Chain.Edit
import SessionPipeline.Session.Life

/-!
How events travel. A forward looks up the neighbour at the moment it is made: the next entry for an
inbound event, the previous one for an outbound event. Past the last entry an inbound event reaches
the session and its handler, an outbound one the write queue and the processor. A handle whose entry
is gone forwards nothing.
-/
namespace SessionPipeline.Effect

variable {σ : Type}

def callHandler (perform : Perform σ) (ref : SessionRef) (event : Event) : Effect σ Unit := do
  match (← store).handler (← session ref).handler with
  | .adapter => pure ()
  | .custom code => runCode perform code (.handle event ref)

/-- Tells a processor that requests wait; a loopback takes them all. -/
def flush (perform : Perform σ) (processor : ProcessorId) (ref : SessionRef) : Effect σ Unit := do
  match (← store).processor processor with
  | .loopback _ => do let _ ← perform (.drain processor ref)
  | .custom code => runCode perform code (.flush ref)

/-- Tells a processor that the session is to end; a loopback ends it at once. -/
def removeSession (perform : Perform σ) (processor : ProcessorId) (ref : SessionRef) :
    Effect σ Unit := do
  match (← store).processor processor with
  | .loopback _ => do
    if (← session ref).state != .closed then let _ ← perform (.fire ref .sessionClosed)
  | .custom code => runCode perform code (.remove ref)

def terminate (perform : Perform σ) (ref : SessionRef) (event : Event) : Effect σ Unit := do
  match event with
  | .sessionOpened => do
    enterOpened ref
    callHandler perform ref event
  | .sessionClosed => do
    enterClosed perform ref
    callHandler perform ref event
  | .messageReceived _ => do
    modifySession ref fun s => { s with readMessages := s.readMessages + 1 }
    callHandler perform ref event
  | .messageSent _ => do
    modifySession ref fun s => { s with writtenMessages := s.writtenMessages + 1 }
    callHandler perform ref event
  | .filterWrite request => do
    modifySession ref fun s => { s with queue := s.queue.offer request }
    flush perform (← session ref).processor ref
  | .filterClose => do removeSession perform (← session ref).processor ref
  | event => callHandler perform ref event

/-- How history tells that an event goes on from the entry of a handle. -/
def passing (c : Chain) (handle : Handle) (ref : SessionRef) (event : Event) : Observation :=
  let next := c.following event.outbound handle.entry
  if next == Chain.exit event.outbound then .arrived handle ref event
  else .delivered handle (c.handle handle.owner next) ref event

def beyond (perform : Perform σ) (c : Chain) (handle : Handle) (ref : SessionRef) (event : Event) :
    Effect σ Unit := do
  let next := c.following event.outbound handle.entry
  if next == Chain.exit event.outbound then terminate perform ref event
  else match (c.slot next).filter with
    | some filter => do
      let _ ← perform (.deliver filter (c.handle handle.owner next) ref event)
    | none => pure ()

def forward (perform : Perform σ) (handle : Handle) (ref : SessionRef) (event : Event) :
    Effect σ Unit := do
  let c ← chain handle.owner
  if c.isCurrent handle then
    observe (passing c handle ref event)
    beyond perform c handle ref event
  else
    logChain handle.owner .warning
      (event.kind.name ++ " dropped, forwarded from a removed filter")

/-- Fires an event: an inbound one at the head, an outbound one at the tail. -/
def fire (perform : Perform σ) (ref : SessionRef) (event : Event) : Effect σ Unit :=
  forward perform ⟨ref, Chain.entrance event.outbound, 0⟩ ref event

/-- Takes one request off the queue, completes and announces it, and goes on with the next. -/
def drain (perform : Perform σ) (processor : ProcessorId) (ref : SessionRef) : Effect σ Unit := do
  match ← pollQueue ref with
  | some request => do
    modifyStore fun s => { s with processors := s.processors.modify processor Processor.count }
    completeRequest perform request .written
    fire perform ref (.messageSent request)
    let _ ← perform (.drain processor ref)
  | none => pure ()

/-- Writes a message; once the session is closing the write fails at once and nothing travels. -/
def write (perform : Perform σ) (ref : SessionRef) (message : Message) : Effect σ FutureId := do
  let future ← newFuture
  let s ← session ref
  if s.state.finishing then
    log sessionLogger .debug
      ("session " ++ toString s.id ++ " write rejected in state " ++ s.state.name)
    let _ ← complete perform future (.failed (some (.writeToClosed s.id)))
    return future
  else
    let request ← newRequest { message := message, future := some future }
    fire perform ref (.filterWrite request)
    return future

def close (perform : Perform σ) (ref : SessionRef) : Effect σ Unit := do
  let s ← session ref
  if s.state.finishing then pure ()
  else do
    log sessionLogger .debug ("session " ++ toString s.id ++ " closing")
    modifySession ref (·.enter .closing)
    observe (.closing ref)
    fire perform ref .filterClose

/-- A request in place of another, sharing its future. -/
def wrapRequest (inner : RequestId) (message : Message) : Effect σ RequestId := do
  newRequest { message := message, future := (← request inner).future, inner := some inner }

end SessionPipeline.Effect
