import SessionPipeline.Proofs.Chain.Travel
import SessionPipeline.Proofs.Filter.CodecStream
import SessionPipeline.Proofs.Filter.Wrapping
import SessionPipeline.Proofs.Session.Queueing

/-! What a session is about whose handler writes back what it receives: a scene that a world shows,
and the steps from one scene to the next. -/
namespace SessionPipeline

/-- What the handler can tell of what happens to it. -/
inductive Sight
  | received (content : Bytes)
  | sent (request : WriteRequest) (outcome : Option Outcome)
  | answered (future : FutureId)
  | other (event : Event)

/-- What the handler makes of what it sees: what it keeps and the lines that it prints. -/
structure Diary (σ : Type) where
  note : Sight → σ → σ
  lines : Sight → List Bytes

variable {σ : Type}

def Script.saying (next : Script σ) : List Bytes → Script σ
  | [] => next
  | line :: rest => .call (.print false line) fun _ => saying next rest

namespace Diary

def tells (d : Diary σ) (sight : Sight) (next : Script σ) : Script σ :=
  .get fun own => .set (d.note sight own) (next.saying (d.lines sight))

/-- Answers every payload by writing the same bytes as a text. -/
def echoing (d : Diary σ) : Invocation → Script σ
  | .handle (.messageReceived (.bytes content)) ref =>
    d.tells (.received content) <| .numbered (.write ref (.text content)) fun future =>
      d.tells (.answered future) (.done .unit)
  | .handle (.messageSent id) _ => .look fun s =>
    d.tells (.sent (s.request id) ((s.request id).future.bind fun f => (s.future f).outcome))
      (.done .unit)
  | .handle event _ => d.tells (.other event) (.done .unit)
  | _ => .done .unit

/-- What the handler sees of one payload: it comes, the text that is written for it is announced as
written, and the write returns. -/
def exchange (payload : Bytes) (future : FutureId) : List Sight :=
  [.received payload,.sent ⟨.text payload,some future,none⟩ (some .written),.answered future]

end Diary

/-- The part of a scene that a session keeps itself. -/
structure Desk where
  waiting : List RequestId
  pending : Bytes
  reads : Nat
  writes : Nat

structure Scene (σ : Type) where
  own : σ
  requests : Array WriteRequest
  futures : Array WriteFuture
  /-- The requests that have reached the queue so far. -/
  arrived : List RequestId
  desk : Desk

namespace Scene

def noting (s : Scene σ) (d : Diary σ) (sight : Sight) : Scene σ := { s with own := d.note sight s.own }

def reading (s : Scene σ) : Scene σ := { s with desk := { s.desk with reads := s.desk.reads + 1 } }

def announcing (s : Scene σ) : Scene σ := { s with desk := { s.desk with writes := s.desk.writes + 1 } }

def keeping (s : Scene σ) (rest : Bytes) : Scene σ := { s with desk := { s.desk with pending := rest } }

def waitingFor (s : Scene σ) (waiting : List RequestId) : Scene σ :=
  { s with desk := { s.desk with waiting := waiting } }

def requesting (s : Scene σ) (r : WriteRequest) : Scene σ := { s with requests := s.requests.push r }

def promising (s : Scene σ) (f : WriteFuture) : Scene σ := { s with futures := s.futures.push f }

def reaching (s : Scene σ) (id : RequestId) : Scene σ := { s with arrived := s.arrived ++ [id] }

/-- A text has been written, and announced when it was. -/
def written (s : Scene σ) (d : Diary σ) (payload : Bytes) : Scene σ :=
  let text : WriteRequest := ⟨.text payload,some s.futures.size,none⟩
  let frame : WriteRequest := ⟨.bytes (Frame.encodeBytes payload),some s.futures.size,some s.requests.size⟩
  ((((s.requesting text).requesting frame).promising ⟨some .written,[]⟩).reaching
    (s.requests.size + 1)).announcing.noting d (.sent text (some .written))

/-- A payload has been received and answered. -/
def echoed (s : Scene σ) (d : Diary σ) (payload : Bytes) : Scene σ :=
  ((s.reading.noting d (.received payload)).written d payload).noting d (.answered s.futures.size)

variable (s : Scene σ) (d : Diary σ)

def heard (payloads : List Bytes) : Scene σ := payloads.foldl (fun s payload => s.echoed d payload) s

theorem heard_append (payloads more : List Bytes) :
    s.heard d (payloads ++ more) = (s.heard d payloads).heard d more := List.foldl_append

theorem heard_keeping (rest : Bytes) (payloads : List Bytes) :
    (s.keeping rest).heard d payloads = (s.heard d payloads).keeping rest := by
  induction payloads generalizing s with
  | nil => rfl
  | cons payload payloads ih => exact ih (s.echoed d payload)

theorem heard_desk (payloads : List Bytes) : (s.heard d payloads).desk =
    { s.desk with reads := s.desk.reads + payloads.length, writes := s.desk.writes + payloads.length } := by
  induction payloads generalizing s with
  | nil => rfl
  | cons payload payloads ih =>
    refine (ih (s.echoed d payload)).trans ?_
    simp [Scene.echoed,Scene.written,noting,announcing,reaching,promising,requesting,reading]
    omega

/-- The handler sees exchange after exchange, each with a future of its own. -/
theorem heard_own (payloads : List Bytes) : (s.heard d payloads).own =
    ((payloads.zipIdx s.futures.size).flatMap fun (payload,future) => Diary.exchange payload future).foldl
      (fun own sight => d.note sight own) s.own := by
  induction payloads generalizing s with
  | nil => rfl
  | cons payload payloads ih =>
    have size : (s.echoed d payload).futures.size = s.futures.size + 1 := Array.size_push _
    have own : (s.echoed d payload).own = (Diary.exchange payload s.futures.size).foldl
        (fun own sight => d.note sight own) s.own := rfl
    rw [List.zipIdx_cons,List.flatMap_cons,List.foldl_append,← own,← size]
    exact ih (s.echoed d payload)

theorem heard_made {id : RequestId} {r : WriteRequest} (made : s.requests[id]? = some r)
    (payloads : List Bytes) : (s.heard d payloads).requests[id]? = some r := by
  induction payloads generalizing s with
  | nil => exact made
  | cons payload payloads ih =>
    exact ih (s.echoed d payload) (World.getElem?_push_of_some (World.getElem?_push_of_some made _) _)

/-- Of each payload a frame reaches the queue, in order. -/
theorem heard_arrived (payloads : List Bytes) : ∃ frames : List RequestId,
    (s.heard d payloads).arrived = s.arrived ++ frames ∧
      frames.map (fun id => ((s.heard d payloads).requests.getD id default).message) =
        payloads.map fun payload => .bytes (Frame.encodeBytes payload) := by
  induction payloads generalizing s with
  | nil => exact ⟨[],(List.append_nil _).symm,rfl⟩
  | cons payload payloads ih =>
    obtain ⟨frames,arrived,messages⟩ := ih (s.echoed d payload)
    have count : (s.requests.push ⟨.text payload,some s.futures.size,none⟩).size =
        s.requests.size + 1 := Array.size_push _
    have made : (s.echoed d payload).requests[s.requests.size + 1]? =
        some ⟨.bytes (Frame.encodeBytes payload),some s.futures.size,some s.requests.size⟩ := by
      rw [← count]
      exact Array.getElem?_push_size
    have first := heard_made (s.echoed d payload) d made payloads
    refine ⟨(s.requests.size + 1) :: frames,?_,?_⟩
    · exact arrived.trans (List.append_assoc s.arrived [_] frames)
    · rw [List.map_cons,List.map_cons,← messages]
      have message : (((s.echoed d payload).heard d payloads).requests.getD (s.requests.size + 1)
          default).message = .bytes (Frame.encodeBytes payload) := by
        rw [Array.getD_eq_getD_getElem?,first]
        rfl
      exact congrArg (· :: _) message

end Scene

/-- Where a session echoes: over a loopback, behind a codec at one place of its chain. -/
structure Venue (σ : Type) where
  ref : SessionRef
  codec : FilterId
  maximum : UInt64
  diary : Diary σ
  handler : HandlerId
  code : CodeId
  processor : ProcessorId
  chain : Chain
  before : List EntryId
  seat : EntryId
  after : List EntryId
  holds : chain.Holds (before ++ seat :: after) []
  seated : (chain.slot seat).filter = some codec

namespace Venue

structure Sits (g : Venue σ) (x : Session) (d : Desk) : Prop where
  chain : x.chain = g.chain
  handler : x.handler = g.handler
  processor : x.processor = g.processor
  going : x.state.finishing = false
  queue : x.queue.Holds d.waiting
  addressable : x.queue.capacity ≤ 2 ^ 63
  pending : x.pendingOf g.codec = d.pending
  reads : x.readMessages = d.reads
  writes : x.writtenMessages = d.writes

/-- The world is as the scene tells, and the venue is there. -/
structure Shows (g : Venue σ) (w : World σ) (s : Scene σ) : Prop where
  present : g.ref < w.store.sessions.size
  session : g.Sits (w.store.session g.ref) s.desk
  decodes : w.store.filter g.codec = .codec g.maximum g.maximum
  plain : ∀ id ∈ g.before ++ g.after, ∃ f, (g.chain.slot id).filter = some f ∧
    (w.store.filter f).plain = true
  handles : w.store.handler g.handler = .custom g.code
  echoes : w.code[g.code]? = some g.diary.echoing
  loops : ∃ flushed, w.store.processor g.processor = .loopback flushed
  own : w.own = s.own
  requests : w.store.requests = s.requests
  futures : w.store.futures = s.futures
  arrived : Turn.reaches (w.store.turns g.ref) = s.arrived

namespace Shows

variable {g : Venue σ} {w : World σ} {s : Scene σ}

theorem record (shows : g.Shows w s) {o : Observation}
    (still : Turn.reaches (o.turn? g.ref).toList = []) : g.Shows (w.record o) s := by
  have turns : (w.record o).store.turns g.ref = w.store.turns g.ref ++
      [o].reverse.filterMap (·.turn? g.ref) := World.turns_news [o] rfl
  have news : [o].reverse.filterMap (·.turn? g.ref) = (o.turn? g.ref).toList := by
    cases told : o.turn? g.ref <;> simp [told]
  refine ⟨shows.present,shows.session,shows.decodes,shows.plain,shows.handles,shows.echoes,shows.loops,
    shows.own,shows.requests,shows.futures,?_⟩
  rw [turns,Turn.reaches_append,news,still,List.append_nil,shows.arrived]

theorem logged (shows : g.Shows w s) (logger : String) (level : Logging.Level) (text : Bytes)
    (context : Logging.Context) : g.Shows (w.logged logger level text context) s := by
  have turns : (w.logged logger level text context).store.turns g.ref = w.store.turns g.ref :=
    World.turns_still _ rfl fun o member => by
      obtain ⟨emission,_,rfl⟩ := List.mem_map.mp (List.mem_reverse.mp member)
      rfl
  exact ⟨shows.present,shows.session,shows.decodes,shows.plain,shows.handles,shows.echoes,shows.loops,
    shows.own,shows.requests,shows.futures,turns ▸ shows.arrived⟩

theorem reach (shows : g.Shows w s) (source : Handle) (id : RequestId) :
    g.Shows (w.record (.arrived source g.ref (.filterWrite id))) (s.reaching id) := by
  have turns : (w.record (.arrived source g.ref (.filterWrite id))).store.turns g.ref =
      w.store.turns g.ref ++ [Turn.reached id] := by
    refine (World.turns_news [.arrived source g.ref (.filterWrite id)] rfl).trans ?_
    simp [Observation.turn?]
  refine ⟨shows.present,shows.session,shows.decodes,shows.plain,shows.handles,shows.echoes,shows.loops,
    shows.own,shows.requests,shows.futures,?_⟩
  rw [turns,Turn.reaches_append,shows.arrived]
  rfl

theorem mapSession (shows : g.Shows w s) {change : Session → Session} {desk : Desk}
    (sits : g.Sits (change (w.store.session g.ref)) desk) :
    g.Shows (w.mapSession g.ref change) { s with desk := desk } := by
  refine ⟨?_,?_,shows.decodes,shows.plain,shows.handles,shows.echoes,shows.loops,shows.own,shows.requests,
    shows.futures,shows.arrived⟩
  · exact (World.sessions_mapSession w g.ref change).symm ▸ shows.present
  · rwa [World.session_mapSession shows.present]

theorem setOwn (shows : g.Shows w s) (own : σ) :
    g.Shows { w with own := own } { s with own := own } :=
  ⟨shows.present,shows.session,shows.decodes,shows.plain,shows.handles,shows.echoes,shows.loops,rfl,
    shows.requests,shows.futures,shows.arrived⟩

theorem request (shows : g.Shows w s) (r : WriteRequest) :
    g.Shows (w.mapStore fun t => { t with requests := t.requests.push r }) (s.requesting r) :=
  ⟨shows.present,shows.session,shows.decodes,shows.plain,shows.handles,shows.echoes,shows.loops,shows.own,
    congrArg (Array.push · r) shows.requests,shows.futures,shows.arrived⟩

theorem future (shows : g.Shows w s) :
    g.Shows (w.mapStore fun t => { t with futures := t.futures.push {} }) (s.promising {}) :=
  ⟨shows.present,shows.session,shows.decodes,shows.plain,shows.handles,shows.echoes,shows.loops,shows.own,
    shows.requests,congrArg (fun futures => futures.push ({} : WriteFuture)) shows.futures,shows.arrived⟩

/-- The last future is decided as it is promised. -/
theorem decide (shows : g.Shows w (s.promising {})) (outcome : Outcome) :
    g.Shows (w.decide s.futures.size outcome) (s.promising ⟨some outcome,[]⟩) := by
  refine ⟨shows.present,shows.session,shows.decodes,shows.plain,shows.handles,shows.echoes,shows.loops,
    shows.own,shows.requests,?_,shows.arrived⟩
  have before : w.store.futures = s.futures.push {} := shows.futures
  have now : (w.decide s.futures.size outcome).store.futures = w.store.futures.modify s.futures.size
      fun f => { f with outcome := some outcome, listeners := [] } := rfl
  rw [now,before,Scene.promising]
  apply Array.ext_getElem?
  intro i
  rw [Array.getElem?_modify,Array.getElem?_push,Array.getElem?_push]
  by_cases last : s.futures.size = i
  · simp [last]
  · rw [if_neg last,if_neg (Ne.symm last),if_neg (Ne.symm last)]

theorem count (shows : g.Shows w s) :
    g.Shows (w.mapStore fun t => { t with
      processors := t.processors.modify g.processor Processor.count }) s := by
  refine ⟨shows.present,shows.session,shows.decodes,shows.plain,shows.handles,shows.echoes,?_,shows.own,
    shows.requests,shows.futures,shows.arrived⟩
  obtain ⟨flushed,found⟩ := shows.loops
  rw [Store.processor,Array.getD_eq_getD_getElem?] at found
  simp only [World.mapStore,Store.processor,Array.getD_eq_getD_getElem?,Array.getElem?_modify]
  cases there : w.store.processors[g.processor]? with
  | none => exact ⟨0,by simp; rfl⟩
  | some p =>
    rw [there,Option.getD_some] at found
    exact ⟨flushed + 1,by simp [found,Processor.count]⟩

theorem read (shows : g.Shows w s) :
    g.Shows (w.mapSession g.ref fun x => { x with readMessages := x.readMessages + 1 }) s.reading := by
  obtain ⟨chain,handler,processor,going,queue,small,pending,reads,writes⟩ := shows.session
  exact shows.mapSession ⟨chain,handler,processor,going,queue,small,pending,congrArg (· + 1) reads,writes⟩

theorem announce (shows : g.Shows w s) :
    g.Shows (w.mapSession g.ref fun x => { x with writtenMessages := x.writtenMessages + 1 })
      s.announcing := by
  obtain ⟨chain,handler,processor,going,queue,small,pending,reads,writes⟩ := shows.session
  exact shows.mapSession ⟨chain,handler,processor,going,queue,small,pending,reads,congrArg (· + 1) writes⟩

theorem keep (shows : g.Shows w s) (rest : Bytes) :
    g.Shows (w.mapSession g.ref fun x => x.setAttribute (.pending g.codec) (.bytes rest))
      (s.keeping rest) := by
  obtain ⟨chain,handler,processor,going,queue,small,pending,reads,writes⟩ := shows.session
  exact shows.mapSession ⟨chain,handler,processor,going,queue,small,pendingOf_setAttribute ..,reads,writes⟩

theorem made (shows : g.Shows w s) {id : RequestId} {r : WriteRequest}
    (made : s.requests[id]? = some r) : w.store.requests[id]? = some r := by
  rwa [shows.requests]

/-- A request is taken off the queue. -/
theorem take {id : RequestId} {waiting : List RequestId}
    (shows : g.Shows w (s.waitingFor (id :: waiting))) :
    ∃ rest, (w.store.session g.ref).queue.poll = some (id,rest) ∧
      g.Shows (w.dequeue g.ref id rest) (s.waitingFor waiting) := by
  obtain ⟨rest,polled,held,smaller⟩ := shows.session.queue.poll_cons shows.session.addressable
  obtain ⟨chain,handler,processor,going,queue,small,pending,reads,writes⟩ := shows.session
  have left : g.Shows (w.mapSession g.ref fun x => { x with queue := rest }) (s.waitingFor waiting) :=
    shows.mapSession
      ⟨chain,handler,processor,going,held,smaller.trans small,pending,reads,writes⟩
  exact ⟨rest,polled,left.record (by simp [Observation.turn?,Turn.reaches])⟩

end Shows
end Venue
end SessionPipeline
