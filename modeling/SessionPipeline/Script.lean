import SessionPipeline.Chain.Template
import SessionPipeline.Config.Basic
import SessionPipeline.Store

/-!
The code that an application gives a pipeline, as a tree of steps: calls of the pipeline with a
continuation for each reply, looks at its data, the application's own state `σ`, and failures raised
and caught. A filter, handler, processor, listener or factory of an application is a function from
how it is invoked to such a tree, so nothing that it can do escapes the pipeline's rules.
-/
namespace SessionPipeline

inductive Invocation
  | hook (hook : Hook) (name : String) (handle : Handle)
  | event (event : Event) (session : SessionRef) (handle : Handle)
  | handle (event : Event) (session : SessionRef)
  | flush (session : SessionRef)
  | remove (session : SessionRef)
  | completed (future : FutureId)
  | validate (config : Json)
  | create (config : Json)

inductive Reply
  | unit
  | flag (b : Bool)
  | number (n : Nat)
  | text (s : String)
  | json (j : Json)
  | filter (id : Option FilterId)
  | request (id : Option RequestId)
  | template (entries : Template)
  | config (config : SessionConfig)
  deriving Inhabited

inductive Call
  | note (note : Json)
  | print (stderr : Bool) (line : Bytes)
  | newFilter (filter : Filter)
  | newHandler (handler : Handler)
  | newProcessor (processor : Processor)
  /-- Whether there is memory for the queue is not the application's to say. -/
  | newSession (handler : Option HandlerId) (processor : Option ProcessorId) (capacity : UInt64)
    (allocation : Allocation)
  | add (session : SessionRef) (position : Position) (name : String) (filter : Option FilterId)
  | remove (session : SessionRef) (name : String)
  | removeFilter (session : SessionRef) (filter : Option FilterId)
  | replace (session : SessionRef) (name : String) (filter : Option FilterId)
  | clear (session : SessionRef)
  | addAll (session : SessionRef) (entries : List (String × FilterId))
  | fire (session : SessionRef) (event : Event)
  | forward (handle : Handle) (session : SessionRef) (event : Event)
  | write (session : SessionRef) (message : Message)
  | close (session : SessionRef)
  | setAttribute (session : SessionRef) (key : AttributeKey) (value : Message)
  | removeAttribute (session : SessionRef) (key : AttributeKey)
  | pollQueue (session : SessionRef)
  | flush (processor : ProcessorId) (session : SessionRef)
  | removeSession (processor : ProcessorId) (session : SessionRef)
  | newFuture
  | complete (future : FutureId) (outcome : Outcome)
  | listen (future : FutureId) (listener : CodeId)
  | newRequest (message : Message) (future : Option FutureId)
  | wrapRequest (inner : RequestId) (message : Message)
  | setLevel (filter : FilterId) (event : EventKind) (level : Logging.Level)
  | setAllLevels (filter : FilterId) (level : Logging.Level)
  | setGlobalLevel (level : Logging.Level)
  | log (logger : String) (level : Logging.Level) (text : String)
  | openFactories
  | registerBuiltIn
  | register (name : String) (factory : Option Factory)
  | unregister (name : String)
  | createFilter (type : String) (config : Json)
  | validateWith (factory : Factory) (config : Json)
  | createWith (factory : Factory) (config : Json)
  | configure (config : SessionConfig)
  | loadConfig (path : String) (content : Option String)

def Call.sessions : Call → List SessionRef
  | .add ref .. | .remove ref _ | .removeFilter ref _ | .replace ref .. | .clear ref
  | .addAll ref _ | .fire ref _ | .write ref _ | .close ref | .setAttribute ref ..
  | .removeAttribute ref _ | .pollQueue ref | .flush _ ref | .removeSession _ ref => [ref]
  | .forward handle ref _ => [handle.owner, ref]
  | _ => []

inductive Script (σ : Type)
  | done (reply : Reply)
  | fail (failure : Failure)
  | look (next : Store → Script σ)
  | get (next : σ → Script σ)
  | set (state : σ) (next : Script σ)
  | define (code : Invocation → Script σ) (next : CodeId → Script σ)
  | call (call : Call) (next : Reply → Script σ)
  | attempt (body : Script σ) (next : Except Failure Reply → Script σ)

namespace Script

variable {σ : Type}

instance : Inhabited (Script σ) := ⟨done .unit⟩

def bind : Script σ → (Reply → Script σ) → Script σ
  | done reply, k => k reply
  | fail failure, _ => fail failure
  | look next, k => look fun s => (next s).bind k
  | get next, k => get fun s => (next s).bind k
  | set state next, k => set state (next.bind k)
  | define code next, k => define code fun id => (next id).bind k
  | call c next, k => call c fun reply => (next reply).bind k
  | attempt body next, k => attempt body fun result => (next result).bind k

def andThen (first second : Script σ) : Script σ := first.bind fun _ => second

def all : List (Script σ) → Script σ
  | [] => done .unit
  | script :: rest => script.andThen (all rest)

def invoke (c : Call) : Script σ := call c done

def numbered (c : Call) (k : Nat → Script σ) : Script σ := call c fun
  | .number n => k n
  | _ => done .unit

def ofExcept {α : Type} : Except Failure α → (α → Script σ) → Script σ
  | .ok a, k => k a
  | .error failure, _ => fail failure

end Script
end SessionPipeline
