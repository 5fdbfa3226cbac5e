import SessionPipeline.Filter.Codec

/-!
What each kind of filter does with an event. Plain filters pass it on; a logging filter first records
it, at the level set for that event, under the name of the entry it was last added as.
-/
namespace SessionPipeline.Effect

variable {σ : Type}

def describeCause : Option Failure → String
  | none => "no cause"
  | some failure => if failure.standard then failure.message else "non-standard exception"

def describeArgument (s : Store) : Event → Bytes
  | .sessionIdle status => Bytes.ofString (": " ++ status.name)
  | .exceptionCaught cause => Bytes.ofString (": " ++ describeCause cause)
  | .messageReceived message => Bytes.ofString ": " ++ message.describe
  | .messageSent id | .filterWrite id => Bytes.ofString ": " ++ (s.request id).message.describe
  | _ => []

def logEvent (self : FilterId) (settings : LogSettings) (ref : SessionRef) (event : Event) :
    Effect σ Unit := do
  let s ← store
  let session := s.session ref
  let entry := (session.textAttribute? (.entryName self)).getD (Bytes.ofString settings.logger)
  let name := Bytes.ofString event.kind.name
  logBytes settings.logger (settings.level event.kind) (name ++ describeArgument s event)
    { session := session.id.toUInt64, filter := entry, event := name, component := .filter }

/-- What a filter does with an event, `onward` being how it passes events on and `own` how an
application's code is run for it. -/
def react (onward : Event → Effect σ Unit) (own : CodeId → Effect σ Unit) (id : FilterId)
    (ref : SessionRef) (event : Event) : Effect σ Unit := do
  match ← filter id with
  | .noop | .adapter => onward event
  | .logging settings => do
    logEvent id settings ref event
    onward event
  | .codec writeMaximum readMaximum => codecEvent onward id writeMaximum readMaximum ref event
  | .custom _ code => own code

def deliver (perform : Perform σ) (id : FilterId) (handle : Handle) (ref : SessionRef)
    (event : Event) : Effect σ Unit :=
  react (forward perform handle ref) (fun code => runCode perform code (.event event ref handle)) id
    ref event

end SessionPipeline.Effect
