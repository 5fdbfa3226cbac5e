import SessionPipeline.Proofs.Session.Scene
import SessionPipeline.Proofs.Wire.RoundTrip

/-! A session that echoes, over a loopback and behind a codec. Every operation on the way of a payload,
up to the handler, down to the queue and up again, leads from a world that shows one scene to one that
shows the next. -/
namespace SessionPipeline

variable {σ : Type}

namespace Venue

open Effect

variable {g : Venue σ} {w : World σ} {s : Scene σ} {event : Event} {Q : World σ → Prop}

/-- The entries on the way to the codec, and those behind it. -/
def ahead (g : Venue σ) (outbound : Bool) : List EntryId := if outbound then g.after.reverse else g.before

def behind (g : Venue σ) (outbound : Bool) : List EntryId := if outbound then g.before.reverse else g.after

theorem way_eq (g : Venue σ) (outbound : Bool) :
    Chain.entrance outbound ::
        (if outbound then (g.before ++ g.seat :: g.after).reverse else g.before ++ g.seat :: g.after) =
      Chain.entrance outbound :: (g.ahead outbound ++ g.seat :: g.behind outbound) := by
  cases outbound <;> simp [ahead,behind]

theorem undisturbed (g : Venue σ) (s : Scene σ) :
    Undisturbed g.chain g.ref (· ∈ g.before ++ g.after) fun w => g.Shows w s where
  chain _ shows := shows.session.chain
  passes _ id shows member := shows.plain id member
  told _ _ _ _ shows := shows.record rfl
  logged _ _ _ _ _ shows := shows.logged ..

/-- An event that is fired comes to the codec. -/
theorem settles_fired (shows : g.Shows w s) (meets : ∀ v, g.Shows v s →
      Settles (fun fuel => deliver (performWith fuel) g.codec (g.chain.handle g.ref g.seat) g.ref event) v
        fun _ => Q) :
    Settles (fun fuel => fire (performWith fuel) g.ref event) w fun _ => Q := by
  have never : (g.chain.slot (Chain.entrance event.outbound)).generation = 0 :=
    g.holds.ends _ (by cases event.outbound <;> simp [Chain.entrance])
  have enters : (⟨g.ref,Chain.entrance event.outbound,0⟩ : Handle) =
      g.chain.handle g.ref (Chain.entrance event.outbound) := by
    rw [Chain.handle,never]
  have through : ∀ id ∈ g.ahead event.outbound, id ∈ g.before ++ g.after := by
    intro id member
    cases way : event.outbound <;> simp [ahead,way] at member ⊢ <;> tauto
  unfold fire
  rw [enters]
  have split := (g.way_eq event.outbound).trans (List.nil_append _).symm
  exact settles_meets g.holds (g.undisturbed s) through g.seated split meets shows

/-- What the codec passes on comes to the end of the chain. -/
theorem settles_passed (shows : g.Shows w s) (arrives : ∀ v source, g.Shows v s →
      Settles (fun fuel => terminate (performWith fuel) g.ref event)
        (v.record (.arrived source g.ref event)) fun _ => Q) :
    Settles (fun fuel => forward (performWith fuel) (g.chain.handle g.ref g.seat) g.ref event) w
      fun _ => Q := by
  have through : ∀ id ∈ g.behind event.outbound, id ∈ g.before ++ g.after := by
    intro id member
    cases way : event.outbound <;> simp [behind,way] at member ⊢ <;> tauto
  have split := (g.way_eq event.outbound).trans (List.cons_append ..).symm
  exact settles_arrives g.holds (g.undisturbed s) through split arrives shows

/-- Whatever the handler notes and prints, it goes on from there. -/
theorem concludes_tells {P : Reply → World σ → Prop} {sight : Sight} {next : Script σ}
    (shows : g.Shows w s) (later : ∀ v, g.Shows v (s.noting g.diary sight) → Concludes next v P) :
    Concludes (g.diary.tells sight next) w P := by
  have printed (lines : List Bytes) {v : World σ} (here : g.Shows v (s.noting g.diary sight)) :
      Concludes (next.saying lines) v P := by
    induction lines generalizing v with
    | nil => exact later v here
    | cons line rest ih =>
      refine concludes_call (Q := fun _ => (g.Shows · (s.noting g.diary sight))) ?_ fun _ v => ih
      exact settles_answer nofun (settles_of_ok (fun _ => rfl) (here.record rfl))
  apply concludes_get
  apply concludes_set
  apply printed
  rw [shows.own]
  exact shows.setOwn _

theorem settles_handled (shows : g.Shows w s)
    (concludes : Concludes (g.diary.echoing (.handle event g.ref)) w fun _ => Q) :
    Settles (fun fuel => callHandler (performWith fuel) g.ref event) w fun _ => Q := by
  refine (settles_run shows.echoes concludes).from fun fuel => ?_
  rw [callHandler,bind_of_ok (store_apply w),bind_of_ok (session_apply g.ref w),shows.session.handler,
    shows.handles]

/-- The announcement of a text that has been written for a future. -/
theorem settles_announced {id : RequestId} {text : WriteRequest} {future : FutureId} {f : WriteFuture}
    (made : s.requests[id]? = some text) (promise : text.future = some future)
    (promised : s.futures[future]? = some f) (shows : g.Shows w s) :
    Settles (fun fuel => terminate (performWith fuel) g.ref (.messageSent id)) w
      fun _ v => g.Shows v (s.announcing.noting g.diary (.sent text f.outcome)) := by
  have here := shows.announce
  have tells : Concludes (g.diary.echoing (.handle (.messageSent id) g.ref))
      (w.mapSession g.ref fun x => { x with writtenMessages := x.writtenMessages + 1 })
      fun _ v => g.Shows v (s.announcing.noting g.diary (.sent text f.outcome)) := by
    apply concludes_look
    have request := request_made (here.made made)
    have outcome : ((w.mapSession g.ref fun x => { x with
        writtenMessages := x.writtenMessages + 1 }).store.future future) = f := by
      rw [Store.future,here.futures,Array.getD_eq_getD_getElem?]
      exact congrArg (Option.getD · default) promised
    rw [request,promise,Option.bind_some,outcome]
    exact concludes_tells here fun v later => concludes_done later
  exact (settles_handled here tells).from fun fuel => bind_of_ok (modifySession_apply g.ref _ w)

/-- The codec takes the wrapper off a request that comes back, so the handler sees what it wrote. -/
theorem settles_sent {id frameId : RequestId} {text frame : WriteRequest} {future : FutureId}
    {f : WriteFuture} (textual : s.requests[id]? = some text) (framed : s.requests[frameId]? = some frame)
    (inner : frame.inner = some id) (promise : text.future = some future)
    (promised : s.futures[future]? = some f) (shows : g.Shows w s) :
    Settles (fun fuel => fire (performWith fuel) g.ref (.messageSent frameId)) w
      fun _ v => g.Shows v (s.announcing.noting g.diary (.sent text f.outcome)) := by
  apply settles_fired shows
  intro v here
  have decodes : (v.store.filter g.codec).isCodec = true := by rw [here.decodes]; rfl
  have unwrapped : Settles (fun fuel => forward (performWith fuel) (g.chain.handle g.ref g.seat) g.ref
      (.messageSent id)) v fun _ v => g.Shows v (s.announcing.noting g.diary (.sent text f.outcome)) := by
    apply settles_passed here
    intro v source later
    exact settles_announced textual promise promised (later.record rfl)
  refine unwrapped.from fun fuel => ?_
  rw [deliver_sent decodes (here.made framed),inner]
  rfl

/-- Nobody listens to the last future as it is decided. -/
theorem completes_last {id : RequestId} {r : WriteRequest} (made : s.requests[id]? = some r)
    (shared : r.future = some s.futures.size) (shows : g.Shows w (s.promising {})) (perform : Perform σ) :
    completeRequest perform id .written w = .ok () (w.decide s.futures.size .written) := by
  have last : w.store.future s.futures.size = {} := by
    have futures : w.store.futures = s.futures.push {} := shows.futures
    rw [Store.future,futures,Array.getD_eq_getD_getElem?,Array.getElem?_push_size]
    rfl
  have waiting : (w.store.future s.futures.size).isDone = false := by rw [last]; rfl
  have told : complete perform s.futures.size .written w = .ok true (w.decide s.futures.size .written) := by
    rw [complete_waiting waiting,last]
    rfl
  rw [completeRequest,bind_of_ok (request_apply id w),request_made (shows.made made),shared]
  exact bind_of_ok told

/-- The queue is drained of one request, the wrapper of a text that waits for the last future. -/
theorem settles_drained {id frameId : RequestId} {text frame : WriteRequest}
    (textual : s.requests[id]? = some text) (framed : s.requests[frameId]? = some frame)
    (inner : frame.inner = some id) (promise : text.future = some s.futures.size)
    (shared : frame.future = some s.futures.size) (idle : s.desk.waiting = [])
    (shows : g.Shows w ((s.promising {}).waitingFor [frameId])) :
    Settles (fun fuel => drain (performWith fuel) g.processor g.ref) w fun _ v => g.Shows v
      ((s.promising ⟨some .written,[]⟩).announcing.noting g.diary (.sent text (some .written))) := by
  obtain ⟨rest,polled,taken⟩ := shows.take
  have emptied : (s.promising {}).waitingFor [] = s.promising {} := by
    rw [Scene.waitingFor,Scene.promising,← idle]
  rw [emptied] at taken
  have decided := taken.count.decide .written
  have promised : (s.promising ⟨some .written,[]⟩).futures[s.futures.size]? = some ⟨some .written,[]⟩ :=
    Array.getElem?_push_size
  have announced := settles_sent (s := s.promising ⟨some .written,[]⟩) textual framed inner promise
    promised decided
  have again {t : Scene σ} (nothing : t.desk.waiting = []) (v : World σ) (here : g.Shows v t) :
      Settles (fun fuel => do let _ ← performWith fuel (.drain g.processor g.ref)) v
        fun _ v => g.Shows v t := by
    have empty : (v.store.session g.ref).queue.Holds [] := nothing ▸ here.session.queue
    apply settles_draining
    refine settles_of_ok (a := ()) (fun fuel => ?_) here
    rw [drain,bind_of_ok (pollQueue_none empty.poll_nil)]
    rfl
  refine (announced.bind fun _ => again idle).from fun fuel => ?_
  rw [drain,bind_of_ok (pollQueue_some polled)]
  dsimp only
  rw [bind_of_ok (modifyStore_apply _ _),bind_of_ok (completes_last framed shared taken.count _)]

/-- A request that reaches the head is queued, and the loopback takes it at once. -/
theorem settles_queued {id frameId : RequestId} {text frame : WriteRequest} (source : Handle)
    (textual : s.requests[id]? = some text) (framed : s.requests[frameId]? = some frame)
    (inner : frame.inner = some id) (promise : text.future = some s.futures.size)
    (shared : frame.future = some s.futures.size) (idle : s.desk.waiting = [])
    (shows : g.Shows w (s.promising {})) :
    Settles (fun fuel => terminate (performWith fuel) g.ref (.filterWrite frameId))
      (w.record (.arrived source g.ref (.filterWrite frameId))) fun _ v => g.Shows v
        (((s.promising ⟨some .written,[]⟩).reaching frameId).announcing.noting g.diary
          (.sent text (some .written))) := by
  have reached := shows.reach source frameId
  have offered : g.Shows ((w.record (.arrived source g.ref (.filterWrite frameId))).mapSession g.ref
      fun x => { x with queue := x.queue.offer frameId })
      (((s.reaching frameId).promising {}).waitingFor [frameId]) := by
    obtain ⟨chain,handler,processor,going,queue,small,pending,reads,writes⟩ := reached.session
    have empty : (w.store.session g.ref).queue.Holds [] := idle ▸ queue
    have room : ((w.store.session g.ref).queue.offer frameId).capacity ≤ 2 ^ 63 :=
      (empty.offer_capacity frameId).trans (Nat.max_le.mpr ⟨small,Nat.zero_le _⟩)
    exact reached.mapSession
      ⟨chain,handler,processor,going,empty.offer frameId,room,pending,reads,writes⟩
  have drained := settles_drained (s := s.reaching frameId) textual framed inner promise shared idle offered
  obtain ⟨flushed,loopback⟩ := offered.loops
  refine (settles_draining drained).from fun fuel => ?_
  rw [terminate,bind_of_ok (modifySession_apply g.ref _ _),bind_of_ok (session_apply g.ref _),
    offered.session.processor,flush,bind_of_ok (store_apply _),loopback]

/-- The codec frames a text, and the frame reaches the head. -/
theorem settles_framed {id : RequestId} {payload : Bytes} {text : WriteRequest}
    (textual : s.requests[id]? = some text) (content : text.message = .text payload)
    (promise : text.future = some s.futures.size) (fits : payload.length ≤ g.maximum.toNat)
    (idle : s.desk.waiting = []) (shows : g.Shows w (s.promising {})) :
    Settles (fun fuel => deliver (performWith fuel) g.codec (g.chain.handle g.ref g.seat) g.ref
      (.filterWrite id)) w fun _ v => g.Shows v
        (((((s.requesting ⟨.bytes (Frame.encodeBytes payload),some s.futures.size,some id⟩).promising
          ⟨some .written,[]⟩).reaching s.requests.size).announcing).noting g.diary
            (.sent text (some .written))) := by
  have other : ∀ bytes, text.message ≠ .bytes bytes := by rw [content]; exact nofun
  have encodes : Frame.encode g.maximum text.message = .ok (Frame.encodeBytes payload) := by
    rw [content]
    exact Frame.encode_of_payload rfl fits
  have request : w.store.request id = text := request_made (shows.made textual)
  have count : w.store.requests.size = s.requests.size := congrArg Array.size shows.requests
  have framed : g.Shows (wrapped w g.ref id (Frame.encodeBytes payload))
      ((s.requesting ⟨.bytes (Frame.encodeBytes payload),some s.futures.size,some id⟩).promising {}) := by
    have here := (shows.logged codecLogger .debug (Bytes.ofString ("session " ++
      toString (w.store.session g.ref).id ++ ": encoded " ++
        toString (Frame.encodeBytes payload).length ++ " bytes")) {}).request
      ⟨.bytes (Frame.encodeBytes payload),some s.futures.size,some id⟩
    rw [wrapped,request,promise]
    exact here
  have passes : Settles (fun fuel => forward (performWith fuel) (g.chain.handle g.ref g.seat) g.ref
      (.filterWrite s.requests.size)) (wrapped w g.ref id (Frame.encodeBytes payload)) fun _ v => g.Shows v
        (((((s.requesting ⟨.bytes (Frame.encodeBytes payload),some s.futures.size,some id⟩).promising
          ⟨some .written,[]⟩).reaching s.requests.size).announcing).noting g.diary
            (.sent text (some .written))) := by
    apply settles_passed framed
    intro v source here
    exact settles_queued source (World.getElem?_push_of_some textual _) Array.getElem?_push_size rfl promise
      rfl idle here
  refine passes.from fun fuel => ?_
  rw [deliver_codec_eq shows.decodes,codecEvent,encodeRequest_wraps (shows.made textual) other encodes,count]

/-- A text that is written is announced before the write returns. -/
theorem settles_written {payload : Bytes} (fits : payload.length ≤ g.maximum.toNat)
    (idle : s.desk.waiting = []) (shows : g.Shows w s) :
    Settles (fun fuel => write (performWith fuel) g.ref (.text payload)) w
      fun future v => future = s.futures.size ∧ g.Shows v (s.written g.diary payload) := by
  have requests : w.store.requests.size = s.requests.size := congrArg Array.size shows.requests
  have futures : w.store.futures.size = s.futures.size := congrArg Array.size shows.futures
  have made := shows.future.request ⟨.text payload,some s.futures.size,none⟩
  have fires : Settles (fun fuel => fire (performWith fuel) g.ref (.filterWrite s.requests.size))
      ((w.mapStore fun t => { t with futures := t.futures.push {} }).mapStore fun t => { t with
        requests := t.requests.push ⟨.text payload,some s.futures.size,none⟩ })
      fun _ v => g.Shows v (s.written g.diary payload) := by
    apply settles_fired (s := (s.requesting ⟨.text payload,some s.futures.size,none⟩).promising {}) made
    intro v here
    have sent := settles_framed (s := s.requesting ⟨.text payload,some s.futures.size,none⟩)
      Array.getElem?_push_size rfl rfl fits idle here
    rwa [show (s.requesting ⟨.text payload,some s.futures.size,none⟩).requests.size =
      s.requests.size + 1 from Array.size_push _] at sent
  have returns : Settles (fun fuel => do
      fire (performWith fuel) g.ref (.filterWrite s.requests.size)
      return s.futures.size) _ fun future v =>
        future = s.futures.size ∧ g.Shows v (s.written g.diary payload) :=
    fires.bind fun _ v after => settles_pure ⟨rfl,after⟩
  refine returns.from fun fuel => ?_
  have promised : newFuture w = .ok s.futures.size
      (w.mapStore fun t => { t with futures := t.futures.push {} }) := futures ▸ rfl
  have requested : newRequest ⟨.text payload,some s.futures.size,none⟩
      (w.mapStore fun t => { t with futures := t.futures.push {} }) = .ok s.requests.size _ :=
    (newRequest_apply _ _).trans (congrArg (EStateM.Result.ok · _) requests)
  rw [write,bind_of_ok promised,bind_of_ok (session_apply g.ref _),
    if_neg (Bool.eq_false_iff.mp shows.future.session.going),bind_of_ok requested]

theorem concludes_echoing {payload : Bytes} (fits : payload.length ≤ g.maximum.toNat)
    (idle : s.desk.waiting = []) (shows : g.Shows w s) :
    Concludes (g.diary.echoing (.handle (.messageReceived (.bytes payload)) g.ref)) w fun _ v =>
      g.Shows v (((s.noting g.diary (.received payload)).written g.diary payload).noting g.diary
        (.answered s.futures.size)) := by
  apply concludes_tells shows
  intro v noted
  refine concludes_call (Q := fun reply v => reply = .number s.futures.size ∧
    g.Shows v ((s.noting g.diary (.received payload)).written g.diary payload)) ?_ ?_
  · apply settles_answer
    · simpa [Call.sessions] using noted.present
    · refine (settles_written (s := s.noting g.diary (.received payload)) fits idle noted).bind
        fun future v written => ?_
      exact settles_pure ⟨congrArg Reply.number written.1,written.2⟩
  · rintro _ v ⟨rfl,written⟩
    exact concludes_tells written fun v told => concludes_done told

/-- One payload that the codec passes on: the handler has answered it when this returns. -/
theorem settles_echoed {payload : Bytes} (fits : payload.length ≤ g.maximum.toNat)
    (idle : s.desk.waiting = []) (shows : g.Shows w s) :
    Settles (fun fuel => forward (performWith fuel) (g.chain.handle g.ref g.seat) g.ref
      (.messageReceived (.bytes payload))) w fun _ v => g.Shows v (s.echoed g.diary payload) := by
  apply settles_passed shows
  intro v source here
  have read := (here.record (o := .arrived source g.ref (.messageReceived (.bytes payload))) rfl).read
  have answers := concludes_echoing (s := s.reading) fits idle read
  exact (settles_handled read answers).from fun fuel => bind_of_ok (modifySession_apply g.ref _ _)

/-- Frame by frame the handler answers what the codec has found in a chunk. -/
theorem settles_forwarded {frames : List Bytes} (fits : ∀ frame ∈ frames, frame.length ≤ g.maximum.toNat)
    (idle : s.desk.waiting = []) (shows : g.Shows w s) :
    Settles (fun fuel => forwardFrames (forward (performWith fuel) (g.chain.handle g.ref g.seat) g.ref)
      frames) w fun _ v => g.Shows v (s.heard g.diary frames) := by
  induction frames generalizing w s with
  | nil => exact settles_pure shows
  | cons frame rest ih =>
    refine (settles_echoed (fits frame List.mem_cons_self) idle shows).bind fun _ v answered => ?_
    exact ih (fun f member => fits f (List.mem_cons_of_mem _ member)) idle answered

/-- The codec holds back what is not a frame yet and passes the frames on. -/
theorem settles_received {chunk : Bytes}
    (sound : (Frame.split g.maximum (s.desk.pending ++ chunk)).failure = none)
    (small : (s.desk.pending ++ chunk).length < 2 ^ 64) (idle : s.desk.waiting = [])
    (shows : g.Shows w s) :
    Settles (fun fuel => fire (performWith fuel) g.ref (.messageReceived (.bytes chunk))) w fun _ v =>
      g.Shows v ((s.keeping (Frame.split g.maximum (s.desk.pending ++ chunk)).rest).heard g.diary
        (Frame.split g.maximum (s.desk.pending ++ chunk)).frames) := by
  have read := @Frame.decode_eq_split g.maximum (s.desk.pending ++ chunk) small
  rw [sound,if_neg (by simp)] at read
  apply settles_fired shows
  intro v here
  have kept := here.keep (Frame.split g.maximum (s.desk.pending ++ chunk)).rest
  have small := Frame.length_of_mem_frames g.maximum (s.desk.pending ++ chunk)
  have answered := settles_forwarded
    (s := s.keeping (Frame.split g.maximum (s.desk.pending ++ chunk)).rest) small idle kept
  refine answered.from fun fuel => ?_
  rw [deliver_codec_eq here.decodes,codecEvent,receiveBytes,bind_of_ok (session_apply g.ref v),
    here.session.pending,read,sound]
  exact bind_of_ok (modifySession_apply g.ref _ v)

/-- How far the session is when it has received so much of a sound stream. -/
def reached (g : Venue σ) (s : Scene σ) (stream : Bytes) : Scene σ :=
  (s.heard g.diary (Frame.split g.maximum stream).frames).keeping (Frame.split g.maximum stream).rest

theorem settles_chunk {stream chunk : Bytes}
    (sound : (Frame.split g.maximum (stream ++ chunk)).failure = none)
    (small : (Frame.split g.maximum stream).rest.length + chunk.length < 2 ^ 64)
    (idle : s.desk.waiting = []) (shows : g.Shows w (g.reached s stream)) :
    Settles (fun fuel => fire (performWith fuel) g.ref (.messageReceived (.bytes chunk))) w fun _ v =>
      g.Shows v (g.reached s (stream ++ chunk)) := by
  have joined := Frame.split_append (Frame.sound_of_append sound) chunk
  have still : (g.reached s stream).desk.waiting = [] := by
    simp only [reached,Scene.keeping,Scene.heard_desk,idle]
  have going : (Frame.split g.maximum ((g.reached s stream).desk.pending ++ chunk)).failure = none := by
    rwa [joined] at sound
  have addressable : ((g.reached s stream).desk.pending ++ chunk).length < 2 ^ 64 := by
    simpa [reached,Scene.keeping] using small
  have passed := settles_received going addressable still shows
  have same : (((g.reached s stream).keeping (Frame.split g.maximum ((g.reached s stream).desk.pending ++
      chunk)).rest).heard g.diary (Frame.split g.maximum ((g.reached s stream).desk.pending ++
        chunk)).frames) = g.reached s (stream ++ chunk) := by
    rw [reached,reached,joined,Scene.heard_append,Scene.heard_keeping,Scene.heard_keeping]
    rfl
  rwa [same] at passed

/-- Chunk after chunk comes from the transport. -/
def feeding (ref : SessionRef) (chunks : List Bytes) : Script σ :=
  .all (chunks.map fun chunk => .invoke (.fire ref (.messageReceived (.bytes chunk))))

theorem concludes_feeding {stream : Bytes} {chunks : List Bytes}
    (sound : (Frame.split g.maximum (stream ++ chunks.flatten)).failure = none)
    (fits : Codec.Fits g.maximum stream chunks) (idle : s.desk.waiting = [])
    (shows : g.Shows w (g.reached s stream)) :
    Concludes (feeding g.ref chunks) w fun reply v => reply = .unit ∧
      g.Shows v (g.reached s (stream ++ chunks.flatten)) := by
  induction chunks generalizing stream w with
  | nil => exact concludes_done ⟨rfl,by simpa using shows⟩
  | cons chunk rest ih =>
    rw [List.flatten_cons,← List.append_assoc] at sound ⊢
    have so_far := Frame.sound_of_append sound
    have opened : Codec.openAfter g.maximum stream chunk = stream ++ chunk := by
      rw [Codec.openAfter,so_far]
      rfl
    obtain ⟨small,later⟩ := fits
    rw [opened] at later
    have fired : Settles (fun fuel => answer (performWith fuel)
        (.fire g.ref (.messageReceived (.bytes chunk)))) w
        fun _ v => g.Shows v (g.reached s (stream ++ chunk)) := by
      apply settles_answer
      · simpa [Call.sessions] using shows.present
      · exact settles_unit (settles_chunk so_far small idle shows)
    exact concludes_call fired fun _ v => ih sound later

end Venue

/-- An open session with nothing under way echoes over a loopback, behind one codec and any plain
filters. -/
structure World.Echoes (w : World σ) (ref : SessionRef) (codec : FilterId) (maximum : UInt64)
    (d : Diary σ) : Prop where
  present : ref < w.store.sessions.size
  opened : (w.store.session ref).state = .opened
  arranged : ∃ before entry after, (w.store.chain ref).getAll ref = before ++ entry :: after ∧
    entry.filter = some codec ∧
    ∀ e ∈ before ++ after, ∃ f, e.filter = some f ∧ (w.store.filter f).plain = true
  decodes : w.store.filter codec = .codec maximum maximum
  answers : ∃ code, w.store.handler (w.store.session ref).handler = .custom code ∧
    w.code[code]? = some d.echoing
  loops : ∃ flushed, w.store.processor (w.store.session ref).processor = .loopback flushed
  idle : (w.store.session ref).queue.Holds []
  addressable : (w.store.session ref).queue.capacity ≤ 2 ^ 63
  fresh : w.store.pendingBytes codec ref = 0

/-- The scene with which a session begins to echo. -/
def World.scene (w : World σ) (ref : SessionRef) : Scene σ where
  own := w.own
  requests := w.store.requests
  futures := w.store.futures
  arrived := Turn.reaches (w.store.turns ref)
  desk := ⟨[],[],(w.store.session ref).readMessages,(w.store.session ref).writtenMessages⟩

variable {w : World σ} {ref : SessionRef} {codec : FilterId} {maximum : UInt64} {d : Diary σ}

theorem World.Echoes.venue (echoes : w.Echoes ref codec maximum d) (reached : w.Reached) :
    ∃ g : Venue σ, g.ref = ref ∧ g.codec = codec ∧ g.maximum = maximum ∧ g.diary = d ∧
      g.Shows w (w.scene ref) := by
  obtain ⟨ids,holds⟩ := reached.inOrder ref
  obtain ⟨before,entry,after,listed,seated,others⟩ := echoes.arranged
  rw [holds.getAll_eq] at listed
  obtain ⟨front,rest,rfl,rfl,behind⟩ := List.map_eq_append_iff.mp listed
  obtain ⟨seat,back,rfl,rfl,rfl⟩ := List.map_eq_cons_iff.mp behind
  obtain ⟨code,custom,echoing⟩ := echoes.answers
  refine ⟨⟨ref,codec,maximum,d,_,code,_,_,front,seat,back,holds,seated⟩,rfl,rfl,rfl,rfl,echoes.present,
    ⟨rfl,rfl,rfl,?_,echoes.idle,echoes.addressable,?_,rfl,rfl⟩,echoes.decodes,?_,custom,echoing,
    echoes.loops,rfl,rfl,rfl,rfl⟩
  · rw [echoes.opened]
    rfl
  · exact List.eq_nil_of_length_eq_zero echoes.fresh
  · intro id member
    refine others ((w.store.chain ref).entry ref id) ?_
    rw [← List.map_append]
    exact List.mem_map_of_mem member

/-- However the frames of some payloads are cut into chunks: the handler receives the payloads in
order, and between one and the next it sees the text that it has written for the first come back as
it wrote it, for the future that the write returns and that is written by then. What reaches the
head is the stream again, and in the end nothing is under way. -/
theorem Script.execute_echoes (reached : w.Reached) (echoes : w.Echoes ref codec maximum d)
    {payloads chunks : List Bytes} (small : ∀ payload ∈ payloads, payload.length ≤ maximum.toNat)
    (stream : chunks.flatten = (payloads.map Frame.encodeBytes).flatten)
    (fits : Codec.Fits maximum [] chunks) :
    ∃ w' enough, (∀ fuel, enough ≤ fuel →
        (Venue.feeding ref chunks).execute fuel w = (.replied .unit,w')) ∧
      w'.own = ((payloads.zipIdx w.store.futures.size).flatMap fun (payload,future) =>
        Diary.exchange payload future).foldl (fun own sight => d.note sight own) w.own ∧
      (∃ frames, Turn.reaches (w'.store.turns ref) = Turn.reaches (w.store.turns ref) ++ frames ∧
        frames.map (fun id => (w'.store.request id).message) =
          payloads.map fun payload => .bytes (Frame.encodeBytes payload)) ∧
      (w'.store.session ref).readMessages = (w.store.session ref).readMessages + payloads.length ∧
      (w'.store.session ref).writtenMessages =
        (w.store.session ref).writtenMessages + payloads.length ∧
      (w'.store.session ref).queue.toList = [] ∧ w'.store.pendingBytes codec ref = 0 := by
  obtain ⟨g,rfl,rfl,rfl,rfl,shows⟩ := echoes.venue reached
  have whole : Frame.split g.maximum chunks.flatten = ⟨payloads,[],none⟩ := by
    have encoded := Frame.split_encoded small []
    rwa [List.append_nil,← stream,Codec.split_nil,List.append_nil] at encoded
  have start : g.Shows w (g.reached (w.scene g.ref) []) := shows
  have concludes := Venue.concludes_feeding (by rw [List.nil_append,whole]) fits rfl start
  obtain ⟨reply,w',enough,⟨rfl,shown⟩,replied⟩ := concludes.replies
  rw [List.nil_append,Venue.reached,whole] at shown
  have desk := Scene.heard_desk (w.scene g.ref) g.diary payloads
  obtain ⟨frames,arrived,messages⟩ := Scene.heard_arrived (w.scene g.ref) g.diary payloads
  have session := shown.session
  simp only [Scene.keeping,desk] at session
  refine ⟨w',enough,replied,?_,⟨frames,?_,?_⟩,session.reads,session.writes,?_,?_⟩
  · exact shown.own.trans (Scene.heard_own ..)
  · exact shown.arrived.trans arrived
  · have requests : w'.store.requests = ((w.scene g.ref).heard g.diary payloads).requests := shown.requests
    simp only [Store.request,requests]
    exact messages
  · exact session.queue.toList_eq
  · exact congrArg List.length session.pending

/-- Keeps all that it sees. -/
def keepsake : Diary (List Sight) := ⟨fun sight seen => seen ++ [sight],fun _ => []⟩

def learning : Script (List Sight) := .define keepsake.echoing fun _ => .done .unit

def learned : World (List Sight) := { own := [], code := #[keepsake.echoing] }

/-- A codec between two plain filters. -/
def furnishing : Script (List Sight) :=
  .call (.newHandler (.custom 0)) fun _ => .call (.newProcessor (.loopback 0)) fun _ =>
  .call (.newSession (some 0) (some 0) 4 .unlimited) fun _ => .call (.newFilter .noop) fun _ =>
  .call (.newFilter (.codec 8 8)) fun _ => .call (.newFilter (.logging (.initial "echo"))) fun _ =>
  .call (.addAll 0 [("idle",0),("codec",1),("log",2)]) fun _ =>
  .call (.fire 0 .sessionOpened) fun _ => .done .unit

def furnished : World (List Sight) := (furnishing.execute 8 learned).2

theorem furnished_reached : furnished.Reached ∧ learned.Evolves .free furnished := by
  have ran : learning.execute 8 { own := [] } = (.replied .unit,learned) := rfl
  have before : learned.Reached := by
    refine .run (.fresh []) ran (fun out => by cases out) fun ref id => ?_
    change 0 < 0 + 2 ^ 32
    omega
  have ended : (furnishing.execute 8 learned).1 ≠ .outOfFuel := by decide +kernel
  unfold furnished
  exact ⟨before.run_of_short ended (by decide +kernel),Script.execute_evolves (Prod.eta _).symm ended⟩

theorem furnished_idle : (furnished.store.session 0).queue.Holds [] := by
  have vacant : (furnished.store.session 0).queue.slots = #[0,0,0,0] := by decide +kernel
  have marks : let queue := (furnished.store.session 0).queue
      queue.initialCapacity = 4 ∧ queue.mask = 3 ∧ queue.first = 0 ∧ queue.last = 0 ∧
        queue.full = false := by decide +kernel
  obtain ⟨initial,mask,first,last,full⟩ := marks
  have capacity : (furnished.store.session 0).queue.capacity = 4 := congrArg Array.size vacant
  refine ⟨⟨2,capacity⟩,⟨2,initial⟩,?_,?_,?_,?_,?_,?_,?_⟩
  all_goals simp [capacity,initial,mask,first,last,full]

/-- The filter is a codec with one bound for what it writes and what it reads. -/
def Filter.isCodecUpTo (maximum : UInt64) : Filter → Bool
  | .codec writes reads => writes == maximum && reads == maximum
  | _ => false

theorem Filter.eq_codec {f : Filter} {maximum : UInt64} (codec : f.isCodecUpTo maximum = true) :
    f = .codec maximum maximum := by
  cases f with
  | codec writes reads =>
    simp only [isCodecUpTo,Bool.and_eq_true,beq_iff_eq] at codec
    rw [codec.1,codec.2]
  | _ => cases codec

theorem furnished_echoes : furnished.Echoes 0 1 8 keepsake where
  present := by decide +kernel
  opened := by decide +kernel
  arranged := by
    have entries : (furnished.store.chain 0).getAll 0 =
        [⟨"idle",some 0,⟨0,2,0⟩⟩,⟨"codec",some 1,⟨0,3,0⟩⟩,⟨"log",some 2,⟨0,4,0⟩⟩] := by decide +kernel
    have plain : (furnished.store.filter 0).plain = true ∧ (furnished.store.filter 2).plain = true := by
      decide +kernel
    refine ⟨[_],_,[_],entries,rfl,?_⟩
    simpa using plain
  decodes := Filter.eq_codec (by decide +kernel)
  answers := ⟨0,by decide +kernel,furnished_reached.2.defined rfl⟩
  loops := ⟨0,by decide +kernel⟩
  idle := furnished_idle
  addressable := by decide +kernel
  fresh := by decide +kernel

/-- Two payloads, one of them empty, in three chunks. -/
theorem furnished_execute_echoes : ∃ w' enough, (∀ fuel, enough ≤ fuel →
      (Venue.feeding 0 [[2,104],[105,0],[]]).execute fuel furnished = (.replied .unit,w')) ∧
    w'.own = furnished.own ++ [.received [104,105],
      .sent ⟨.text [104,105],some 0,none⟩ (some .written),.answered 0,
      .received [],.sent ⟨.text [],some 1,none⟩ (some .written),.answered 1] ∧
    (w'.store.session 0).writtenMessages = 2 := by
  have futures : furnished.store.futures.size = 0 := by decide +kernel
  have writes : (furnished.store.session 0).writtenMessages = 0 := by decide +kernel
  obtain ⟨w',enough,replied,own,_,_,written,_⟩ := @Script.execute_echoes _ _ _ _ _ _ furnished_reached.1
    furnished_echoes [[104,105],[]] [[2,104],[105,0],[]] (by decide) (by decide) (by decide)
  refine ⟨w',enough,replied,?_,by rw [written,writes]; rfl⟩
  rw [own,futures]
  simp [Diary.exchange,keepsake]

end SessionPipeline
