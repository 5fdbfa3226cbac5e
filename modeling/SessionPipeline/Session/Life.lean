import SessionPipeline.Session.Completion

/-!
How a session begins and ends. A closed session has nobody left to take its requests, so closing
fails every request that still waits in its queue.
-/
namespace SessionPipeline.Effect

variable {σ : Type}

def sessionLogger : String := "Session.session"

/-- A new session, numbered even when it is then refused. -/
def newSession (handler : Option HandlerId) (processor : Option ProcessorId) (capacity : UInt64)
    (allocation : Allocation) : Effect σ SessionRef := do
  let number := (← store).nextSession
  modifyStore fun s => { s with nextSession := number + 1 }
  let queue ← ofExcept (Ring.create allocation capacity)
  match handler, processor with
  | none, _ => fail (.invalidArgument "Session requires a handler")
  | _, none => fail (.invalidArgument "Session requires a processor")
  | some handler, some processor => do
    let ref := (← store).sessions.size
    let session : Session := { id := number, handler := handler, processor := processor, queue := queue }
    modifyStore fun s => { s with sessions := s.sessions.push session }
    log sessionLogger .debug
      ("session " ++ toString number ++ " created, write queue capacity " ++ toString queue.capacity)
    return ref

def pollQueue (ref : SessionRef) : Effect σ (Option RequestId) := do
  match (← session ref).queue.poll with
  | some (request, queue) => do
    modifySession ref fun s => { s with queue := queue }
    observe (.taken ref request)
    return some request
  | none => return none

/-- Takes a request off the queue for an application. -/
def handOver (ref : SessionRef) : Effect σ (Option RequestId) := do
  match ← pollQueue ref with
  | some request => do
    observe (.handed ref request)
    return some request
  | none => return none

/-- Fails the requests in the queue one by one and counts them. -/
def failPending (perform : Perform σ) (ref : SessionRef) (dropped : Nat) : Effect σ Nat := do
  match ← pollQueue ref with
  | some request => do
    completeRequest perform request (.failed (some (.writeToClosed (← sessionId ref))))
    match ← perform (.failPending ref (dropped + 1)) with
    | .number total => return total
    | _ => return dropped + 1
  | none => do
    observe (.emptied ref)
    return dropped

def enterOpened (ref : SessionRef) : Effect σ Unit := do
  if (← session ref).state == .created then modifySession ref (·.enter .opened)

def enterClosed (perform : Perform σ) (ref : SessionRef) : Effect σ Unit := do
  modifySession ref (·.enter .closed)
  let dropped ← failPending perform ref 0
  log sessionLogger .debug
    ("session " ++ toString (← sessionId ref) ++ " closed, " ++ toString dropped ++ " pending writes failed")

end SessionPipeline.Effect
