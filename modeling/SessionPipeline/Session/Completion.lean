import SessionPipeline.Effect

/-!
Completing a write future and listening to one. The first completion decides; it takes the listeners
that wait and runs them in order. A listener that comes later runs at once.
-/
namespace SessionPipeline.Effect

variable {σ : Type}

def notify (perform : Perform σ) (future : FutureId) (listener : CodeId) : Effect σ Unit := do
  observe (.notified future listener)
  runCode perform listener (.completed future)

def runListeners (perform : Perform σ) (future : FutureId) : List CodeId → Effect σ Unit
  | [] => pure ()
  | listener :: rest => do
    notify perform future listener
    runListeners perform future rest

/-- Whether this completion was the first. -/
def complete (perform : Perform σ) (future : FutureId) (outcome : Outcome) : Effect σ Bool := do
  let f := (← store).future future
  if f.isDone then return false
  modifyStore fun s => { s with
    futures := s.futures.modify future fun f => { f with outcome := some outcome, listeners := [] } }
  runListeners perform future f.listeners
  return true

def listen (perform : Perform σ) (future : FutureId) (listener : CodeId) : Effect σ Unit := do
  if ((← store).future future).isDone then notify perform future listener
  else modifyStore fun s => { s with
    futures := s.futures.modify future fun f => { f with listeners := f.listeners ++ [listener] } }

def completeRequest (perform : Perform σ) (id : RequestId) (outcome : Outcome) : Effect σ Unit := do
  match (← request id).future with
  | some future => let _ ← complete perform future outcome
  | none => pure ()

end SessionPipeline.Effect
