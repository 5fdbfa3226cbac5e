import Mathlib.Data.Set.Basic
import SessionPipeline.Execution
import SessionPipeline.Proofs.Queue.Ring

/-! Code that keeps to one session. It names that session alone, and of the requests, futures and pieces
of code that runs make only those it has come by through this session; what it does depends on nothing
else, and what it remembers it remembers for this session only. -/
namespace SessionPipeline

/-- Names of what is made in a run. -/
inductive Name
  | request (id : RequestId)
  | future (id : FutureId)
  | code (id : CodeId)

/-- Memory that names what is made in a run. -/
class Naming (τ : Type) where
  names : τ → List Name

instance : Naming Unit := ⟨fun _ => []⟩

def WriteRequest.names (r : WriteRequest) : List Name :=
  r.future.toList.map .future ++ r.inner.toList.map .request

def WriteFuture.names (f : WriteFuture) : List Name := f.listeners.map .code

def Event.requests : Event → List RequestId
  | .messageSent id | .filterWrite id => [id]
  | _ => []

/-- The session that history tells of. -/
def Observation.session? : Observation → Option SessionRef
  | .linked handle | .unlinked handle | .discarded handle | .hooked _ _ _ handle => some handle.owner
  | .delivered _ _ ref _ | .arrived _ ref _ | .taken ref _ | .handed ref _ | .emptied ref
  | .closing ref => some ref
  | .emitted _ | .noted _ | .printed .. | .notified .. => none

def Observation.requests : Observation → List RequestId
  | .delivered _ _ _ event | .arrived _ _ event => event.requests
  | .taken _ id | .handed _ id => [id]
  | _ => []

/-- The processor but for what it counts. -/
def Processor.uncounted : Processor → Processor
  | .loopback _ => .loopback 0
  | p => p

namespace Store

/-- What has happened to a session, latest first. -/
def eventsOf (s : Store) (ref : SessionRef) : List Observation :=
  s.journal.filter fun o => o.session? == some ref

/-- The code that filters, handlers and processors run. -/
def Serves (s : Store) (code : CodeId) : Prop :=
  (∃ id label, s.filter id = .custom label code) ∨ (∃ id, s.handler id = .custom code) ∨
    ∃ id, (s.processor id).uncounted = .custom code

/-- What a session leads to is known. -/
structure Within (s : Store) (ref : SessionRef) (known : Set Name) : Prop where
  queue : ∃ ids, (s.session ref).queue.Holds ids ∧ ∀ id ∈ ids, .request id ∈ known
  requests : ∀ id, .request id ∈ known → ∀ n ∈ (s.request id).names, n ∈ known
  futures : ∀ id, .future id ∈ known → ∀ n ∈ (s.future id).names, n ∈ known
  events : ∀ o ∈ s.eventsOf ref, ∀ id ∈ o.requests, .request id ∈ known
  serves : ∀ code, s.Serves code → .code code ∈ known

/-- Two stores are the same to a session. -/
structure Agrees (s : Store) (ref : SessionRef) (known : Set Name) (s' : Store) : Prop where
  session : s.session ref = s'.session ref
  request : ∀ id, .request id ∈ known → s.request id = s'.request id
  future : ∀ id, .future id ∈ known → s.future id = s'.future id
  filters : s.filters = s'.filters
  handlers : s.handlers = s'.handlers
  processor : ∀ id, (s.processor id).uncounted = (s'.processor id).uncounted
  events : s.eventsOf ref = s'.eventsOf ref

end Store

/-- The invocation is for the session. -/
def Invocation.Within (ref : SessionRef) (known : Set Name) : Invocation → Prop
  | .hook _ _ place => place.owner = ref
  | .event e session place =>
    place.owner = ref ∧ session = ref ∧ ∀ id ∈ e.requests, .request id ∈ known
  | .handle e session => session = ref ∧ ∀ id ∈ e.requests, .request id ∈ known
  | .flush session | .remove session => session = ref
  | .completed future => .future future ∈ known
  | .validate _ | .create _ => False

/-- The call is about the session and what is known. Filters, handlers and processors are there already,
with their settings. -/
def Call.Within (ref : SessionRef) (known : Set Name) : Call → Prop
  | .note _ | .print .. | .log .. | .newFuture => True
  | .add session .. | .remove session _ | .removeFilter session _ | .replace session .. | .clear session
  | .addAll session _ | .write session _ | .close session | .setAttribute session ..
  | .removeAttribute session _ | .pollQueue session | .flush _ session
  | .removeSession _ session => session = ref
  | .fire session event => session = ref ∧ ∀ id ∈ event.requests, .request id ∈ known
  | .forward handle session event =>
    handle.owner = ref ∧ session = ref ∧ ∀ id ∈ event.requests, .request id ∈ known
  | .complete future _ => .future future ∈ known
  | .listen future listener => .future future ∈ known ∧ .code listener ∈ known
  | .newRequest _ future => ∀ f ∈ future, .future f ∈ known
  | .wrapRequest inner _ => .request inner ∈ known
  | _ => False

/-- The names that the reply to a call gives. -/
def Call.gives : Call → Reply → List Name
  | .write .., .number id | .newFuture, .number id => [.future id]
  | .newRequest .., .number id | .wrapRequest .., .number id => [.request id]
  | .pollQueue _, .request id => id.toList.map .request
  | _, _ => []

variable {τ : Type} [Naming τ]

/-- The script keeps to the session if it starts with what is known, and replies with the names that
`gives` tells. Whatever it waits for, more may be known afterwards. -/
inductive Script.Confined (ref : SessionRef) :
    Set Name → (Reply → List Name) → Script (SessionRef → τ) → Prop
  | done {known : Set Name} {gives : Reply → List Name} {reply : Reply}
      (given : ∀ n ∈ gives reply, n ∈ known) : Confined ref known gives (.done reply)
  | fail {known : Set Name} {gives : Reply → List Name} (failure : Failure) :
      Confined ref known gives (.fail failure)
  | look {known : Set Name} {gives : Reply → List Name} {next : Store → Script (SessionRef → τ)}
      (same : ∀ more, known ⊆ more → ∀ s s', s.Within ref more → s.Agrees ref more s' → next s = next s')
      (rest : ∀ more, known ⊆ more → ∀ s, s.Within ref more → Confined ref more gives (next s)) :
      Confined ref known gives (.look next)
  | retrieve {known : Set Name} {gives : Reply → List Name} {next : τ → Script (SessionRef → τ)}
      (rest : ∀ more, known ⊆ more → ∀ memory, (∀ n ∈ Naming.names memory, n ∈ more) →
        Confined ref more gives (next memory)) :
      Confined ref known gives (.get fun own => next (own ref))
  | remember {known : Set Name} {gives : Reply → List Name} {memory : τ}
      {next : Script (SessionRef → τ)} (names : ∀ n ∈ Naming.names memory, n ∈ known)
      (rest : Confined ref known gives next) :
      Confined ref known gives (.get fun own => .set (Function.update own ref memory) next)
  | define {known : Set Name} {gives : Reply → List Name}
      {code : Invocation → Script (SessionRef → τ)} {next : CodeId → Script (SessionRef → τ)}
      (body : ∀ more, known ⊆ more → ∀ how, how.Within ref more →
        Confined ref more (fun _ => []) (code how))
      (rest : ∀ more, known ⊆ more → ∀ id, .code id ∈ more → Confined ref more gives (next id)) :
      Confined ref known gives (.define code next)
  | call {known : Set Name} {gives : Reply → List Name} {c : Call} {next : Reply → Script (SessionRef → τ)}
      (within : c.Within ref known)
      (rest : ∀ more, known ⊆ more → ∀ reply, (∀ n ∈ c.gives reply, n ∈ more) →
        Confined ref more gives (next reply)) :
      Confined ref known gives (.call c next)
  | attempt {known : Set Name} {gives tried : Reply → List Name} {body : Script (SessionRef → τ)}
      {next : Except Failure Reply → Script (SessionRef → τ)} (within : Confined ref known tried body)
      (returned : ∀ more, known ⊆ more → ∀ reply, (∀ n ∈ tried reply, n ∈ more) →
        Confined ref more gives (next (.ok reply)))
      (failed : ∀ more, known ⊆ more → ∀ failure, Confined ref more gives (next (.error failure))) :
      Confined ref known gives (.attempt body next)

/-- The code keeps to the session whenever it is invoked for it. -/
def Confines (ref : SessionRef) (known : Set Name) (code : Invocation → Script (SessionRef → τ)) : Prop :=
  ∀ more, known ⊆ more → ∀ how, how.Within ref more → (code how).Confined ref more fun _ => []

namespace World

/-- What a session leads to is known, and the code that is known keeps to the session. -/
structure Within (w : World (SessionRef → τ)) (ref : SessionRef) (known : Set Name) : Prop where
  present : ref < w.store.sessions.size
  store : w.store.Within ref known
  memory : ∀ n ∈ Naming.names (w.own ref), n ∈ known
  code : ∀ id, .code id ∈ known → ∃ body, w.code[id]? = some body ∧ Confines ref known body

end World

section Monotony

variable {ref : SessionRef} {known more : Set Name}

theorem Call.Within.mono {c : Call} (within : c.Within ref known) (larger : known ⊆ more) :
    c.Within ref more := by
  cases c <;> simp only [Call.Within] at within ⊢ <;> grind

theorem Call.Within.sessions {c : Call} (within : c.Within ref known) : ∀ r ∈ c.sessions, r = ref := by
  cases c <;> simp only [Call.Within] at within <;> simp [Call.sessions,within]

theorem Script.Confined.mono {gives : Reply → List Name} {script : Script (SessionRef → τ)}
    (confined : script.Confined ref known gives) (larger : known ⊆ more) :
    script.Confined ref more gives := by
  induction confined generalizing more with
  | done given => exact .done fun n member => larger (given n member)
  | fail failure => exact .fail failure
  | look same rest =>
    exact .look (fun more' m => same more' (larger.trans m)) fun more' m => rest more' (larger.trans m)
  | retrieve rest => exact .retrieve fun more' m => rest more' (larger.trans m)
  | remember names rest ih => exact .remember (fun n member => larger (names n member)) (ih larger)
  | define body rest =>
    exact .define (fun more' m => body more' (larger.trans m)) fun more' m => rest more' (larger.trans m)
  | call within rest => exact .call (within.mono larger) fun more' m => rest more' (larger.trans m)
  | attempt within returned failed ih =>
    exact .attempt (ih larger) (fun more' m => returned more' (larger.trans m))
      fun more' m => failed more' (larger.trans m)

theorem Confines.mono {code : Invocation → Script (SessionRef → τ)} (confines : Confines ref known code)
    (larger : known ⊆ more) : Confines ref more code :=
  fun more' m => confines more' (larger.trans m)

end Monotony
end SessionPipeline
