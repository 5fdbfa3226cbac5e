import SessionPipeline.Factory.Basic
import SessionPipeline.Logging.Registry
import SessionPipeline.Session.Basic

/-!
Everything that a pipeline knows, as plain data: sessions with their chains, filters, handlers,
processors, requests and futures by number, the loggers, the factories, and a journal of what has
happened so far. Behaviour of an application's own is named by number only.
-/
namespace SessionPipeline

/-- One step of a pipeline's history: what a log sink does, what an application notes or prints, and
how entries, events, requests and completions move. -/
inductive Observation
  | emitted (emission : Logging.Emission)
  | noted (note : Json)
  | printed (stderr : Bool) (line : Bytes)
  | linked (handle : Handle)
  | unlinked (handle : Handle)
  /-- An entry's slot is freed before the entry was ever linked. -/
  | discarded (handle : Handle)
  | hooked (filter : FilterId) (hook : Hook) (name : String) (handle : Handle)
  /-- An event goes from one entry to the filter of the next. -/
  | delivered (source target : Handle) (session : SessionRef) (event : Event)
  | arrived (source : Handle) (session : SessionRef) (event : Event)
  | taken (session : SessionRef) (request : RequestId)
  /-- A request that was taken off the queue is an application's to complete. -/
  | handed (session : SessionRef) (request : RequestId)
  /-- A closing session has failed all that waited. -/
  | emptied (session : SessionRef)
  | closing (session : SessionRef)
  | notified (future : FutureId) (listener : CodeId)
  deriving Inhabited

structure Store where
  logging : Logging.Registry := .initial
  /-- Absent until the registry of factories is first used. -/
  factories : Option FactoryTable := none
  filters : Array Filter := #[]
  handlers : Array Handler := #[]
  processors : Array Processor := #[]
  requests : Array WriteRequest := #[]
  futures : Array WriteFuture := #[]
  sessions : Array Session := #[]
  nextSession : Nat := 1
  /-- Latest first. -/
  journal : List Observation := []
  deriving Inhabited

namespace Store

def filter (s : Store) (id : FilterId) : Filter := s.filters.getD id default

def label (s : Store) (id : FilterId) : String := (s.filter id).label

def session (s : Store) (ref : SessionRef) : Session := s.sessions.getD ref default

def chain (s : Store) (ref : SessionRef) : Chain := (s.session ref).chain

def request (s : Store) (id : RequestId) : WriteRequest := s.requests.getD id default

/-- A request, the one it wraps, the one that wraps, and so on; `fuel` bounds their number. -/
def layersUpTo (s : Store) : Nat → RequestId → List WriteRequest
  | 0, _ => []
  | fuel + 1, id =>
    let r := s.request id
    match r.inner with
    | some inner => r :: s.layersUpTo fuel inner
    | none => [r]

/-- A request is made after the one it wraps, so there are no more layers than requests. -/
def layers (s : Store) (id : RequestId) : List WriteRequest := s.layersUpTo (s.requests.size + 1) id

def future (s : Store) (id : FutureId) : WriteFuture := s.futures.getD id default

def processor (s : Store) (id : ProcessorId) : Processor := s.processors.getD id default

def handler (s : Store) (id : HandlerId) : Handler := s.handlers.getD id default

def factory? (s : Store) (name : String) : Option Factory := (s.factories.getD []).lookup name

def isAttached (s : Store) (h : Handle) : Bool := (s.chain h.owner).isCurrent h

def chainText (s : Store) (ref : SessionRef) : String := (s.chain ref).toString s.label

def pendingBytes (s : Store) (codec : FilterId) (ref : SessionRef) : Nat :=
  ((s.session ref).pendingOf codec).length

end Store
end SessionPipeline
