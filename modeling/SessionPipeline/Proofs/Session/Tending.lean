import SessionPipeline.Proofs.Effect.Execution
import SessionPipeline.Proofs.Session.Readiness

/-! Events, edits, calls and factories serve the requests of a session at a loopback, if the tasks
within them do and no code fires that a request was sent in the place of the loopback. A request that
reaches the queue is taken and completed before it is announced, and what is written meanwhile is
served in between. -/
namespace SessionPipeline

/-- What goes on from this handle does not tell in the place of the loopback that a request was sent. -/
def Handle.Fair (ref : SessionRef) (handle : Handle) (r : SessionRef) (event : Event) : Prop :=
  ∀ id, event = .messageSent id → handle.owner = ref → r = ref → handle.entry ≠ Chain.head

/-- A call that does not itself fire at the head of the session that a request was sent. -/
def Call.Fair (ref : SessionRef) : Call → Prop
  | .fire r event => ∀ id, event = .messageSent id → r ≠ ref
  | .forward handle r event => handle.Fair ref r event
  | _ => True

def Task.Fair (ref : SessionRef) : Task → Prop
  | .fire r event => ∀ id, event = .messageSent id → r ≠ ref
  | .deliver _ handle r event => handle.Fair ref r event
  | _ => True

namespace Effect

open World

variable {σ α : Type} {ref : SessionRef} {caught : Prop} {before : List Mark} {w : World σ}

theorem orderly_read {m : Effect σ α} (read : World σ → α) (reads : ∀ w, m w = .ok (read w) w) :
    Orderly ref caught m := orderly_of_still fun w => ⟨_,w,reads w,.refl w⟩

theorem orderly_store : Orderly ref caught (store : Effect σ Store) :=
  orderly_read _ fun _ => rfl

theorem orderly_session (r : SessionRef) : Orderly ref caught (session r : Effect σ Session) :=
  orderly_read _ fun _ => rfl

theorem orderly_sessionId (r : SessionRef) : Orderly ref caught (sessionId r : Effect σ Nat) :=
  orderly_read _ fun _ => rfl

theorem orderly_filter (id : FilterId) : Orderly ref caught (filter id : Effect σ Filter) :=
  orderly_read _ fun _ => rfl

theorem orderly_request (id : RequestId) : Orderly ref caught (request id : Effect σ WriteRequest) :=
  orderly_read _ fun _ => rfl

/-- The chain of the session has its head wherever it is looked at. -/
theorem orderly_chain (r : SessionRef) {next : Chain → Effect σ α}
    (rest : ∀ c, (r = ref → c.Headed) → Orderly ref caught (next c)) :
    Orderly ref caught (chain r >>= next) := by
  intro w ready
  apply (serves_bind_of_ok (chain_apply r w)).mpr
  apply rest _ _ w ready
  rintro rfl
  exact ready.headed

theorem orderly_observe {o : Observation} (unmarked : o.mark? ref = none) :
    Orderly ref caught (observe o : Effect σ Unit) :=
  orderly_of_still fun w => ⟨(),_,rfl,.record w unmarked⟩

theorem orderly_logBytes (logger : String) (level : Logging.Level) (text : Bytes)
    (context : Logging.Context) :
    Orderly ref caught (logBytes logger level text context : Effect σ Unit) :=
  orderly_of_still fun w => ⟨(),_,rfl,.logged w logger level text context⟩

theorem orderly_log (logger : String) (level : Logging.Level) (text : String) :
    Orderly ref caught (log logger level text : Effect σ Unit) := orderly_logBytes logger level _ _

theorem orderly_logChain (r : SessionRef) (level : Logging.Level) (text : String) :
    Orderly ref caught (logChain r level text : Effect σ Unit) :=
  (orderly_sessionId r).bind fun _ => orderly_log _ _ _

theorem orderly_modifySession (r : SessionRef) {change : Session → Session}
    (processor : ∀ s, (change s).processor = s.processor) (queue : ∀ s, (change s).queue = s.queue)
    (chain : ∀ s, (change s).chain = s.chain) :
    Orderly ref caught (modifySession r change : Effect σ Unit) :=
  orderly_of_still fun w => ⟨(),_,rfl,.mapSession w r processor queue chain⟩

theorem orderly_setAttribute (r : SessionRef) (key : AttributeKey) (value : Message) :
    Orderly ref caught (modifySession r fun s => s.setAttribute key value : Effect σ Unit) :=
  orderly_modifySession r (fun _ => rfl) (fun _ => rfl) fun _ => rfl

theorem orderly_removeAttribute (r : SessionRef) (key : AttributeKey) :
    Orderly ref caught (modifySession r fun s => s.removeAttribute key : Effect σ Unit) :=
  orderly_modifySession r (fun _ => rfl) (fun _ => rfl) fun _ => rfl

theorem orderly_enter (r : SessionRef) (state : SessionState) :
    Orderly ref caught (modifySession r (·.enter state) : Effect σ Unit) :=
  orderly_modifySession r (fun _ => rfl) (fun _ => rfl) fun _ => rfl

theorem orderly_enterOpened (r : SessionRef) :
    Orderly ref caught (enterOpened r : Effect σ Unit) := by
  apply (orderly_session r).bind
  intro s
  split
  · exact orderly_enter r _
  · exact orderly_pure ()

theorem orderly_modifyChain (r : SessionRef) {change : Chain → Chain}
    (headed : r = ref → ∀ c : Chain, c.Headed → (change c).Headed) :
    Orderly ref caught (modifyChain r change : Effect σ Unit) :=
  orderly_of_still fun w => ⟨(),_,rfl,.mapChain w r fun same => headed same _⟩

theorem orderly_modifyFilter (id : FilterId) (change : Filter → Filter) :
    Orderly ref caught (modifyFilter id change : Effect σ Unit) :=
  orderly_modifyStore (fun _ => rfl) (fun _ => rfl) fun _ => rfl

theorem orderly_newRequest (r : WriteRequest) :
    Orderly ref caught (newRequest r : Effect σ RequestId) :=
  orderly_of_still fun _ => ⟨_,_,rfl,.store rfl rfl rfl⟩

theorem orderly_newFuture : Orderly ref caught (newFuture : Effect σ FutureId) :=
  orderly_of_still fun _ => ⟨_,_,rfl,.store rfl rfl rfl⟩

theorem orderly_makeFilter (f : Filter) : Orderly ref caught (makeFilter f : Effect σ FilterId) := by
  have made : Orderly ref caught (newFilter f : Effect σ FilterId) :=
    orderly_of_still fun _ => ⟨_,_,rfl,.store rfl rfl rfl⟩
  unfold makeFilter
  split
  · apply Orderly.bind
    · exact orderly_modifyStore (fun _ => rfl) (fun _ => rfl) fun _ => rfl
    · exact fun _ => made
  · exact made

theorem orderly_register (name : String) (factory : Option Factory) :
    Orderly ref caught (register name factory : Effect σ Bool) := by
  unfold register
  split
  · exact (orderly_log _ _ _).bind fun _ => orderly_pure _
  · apply orderly_store.bind
    intro s
    dsimp only
    split
    · exact (orderly_log _ _ _).bind fun _ => orderly_pure _
    · apply Orderly.bind
      · exact orderly_modifyStore (fun _ => rfl) (fun _ => rfl) fun _ => rfl
      · exact fun _ => (orderly_log _ _ _).bind fun _ => orderly_pure _

theorem orderly_registerAll (factories : List (String × Factory)) :
    Orderly ref caught (registerAll factories : Effect σ Unit) := by
  induction factories with
  | nil => exact orderly_pure ()
  | cons factory rest ih => exact (orderly_register _ _).bind fun _ => ih

theorem orderly_openFactories : Orderly ref caught (openFactories : Effect σ Unit) := by
  apply orderly_store.bind
  intro s
  split
  · exact orderly_registerAll _
  · exact orderly_pure ()

theorem orderly_unregister (name : String) : Orderly ref caught (unregister name : Effect σ Bool) := by
  apply orderly_store.bind
  intro s
  apply Orderly.bind
  · exact orderly_modifyStore (fun _ => rfl) (fun _ => rfl) fun _ => rfl
  · exact fun _ => orderly_pure _

theorem orderly_loadConfig (path : String) (content : Option String) :
    Orderly ref caught (loadConfig path content : Effect σ SessionConfig) := by
  unfold loadConfig
  split
  · exact orderly_fail _
  · split
    · exact orderly_fail _
    · exact (orderly_ofExcept _).bind fun _ => (orderly_ofExcept _).bind fun _ =>
        (orderly_log _ _ _).bind fun _ => orderly_pure _

theorem orderly_newSession (handler : Option HandlerId) (processor : Option ProcessorId)
    (capacity : UInt64) (allocation : Allocation) :
    Orderly ref caught (newSession handler processor capacity allocation : Effect σ SessionRef) := by
  have begins (session : Session) : Orderly ref caught (modifyStore fun s =>
      { s with sessions := s.sessions.push session } : Effect σ Unit) :=
    orderly_of_still fun w => ⟨(),_,rfl,.begin w session⟩
  apply orderly_store.bind
  intro s
  apply Orderly.bind
  · exact orderly_modifyStore (fun _ => rfl) (fun _ => rfl) fun _ => rfl
  intro _
  apply (orderly_ofExcept _).bind
  intro queue
  split
  · exact orderly_fail _
  · exact orderly_fail _
  · exact orderly_store.bind fun _ => (begins _).bind fun _ => (orderly_log _ _ _).bind
      fun _ => orderly_pure _

theorem orderly_needFilter (name : String) (filter : Option FilterId) :
    Orderly ref caught (needFilter name filter : Effect σ FilterId) := by
  cases filter with
  | none => exact orderly_fail _
  | some id => exact orderly_pure id

theorem orderly_needSessions (refs : List SessionRef) :
    Orderly ref caught (needSessions refs : Effect σ Unit) := by
  apply orderly_store.bind
  intro s
  split
  · exact orderly_fail _
  · exact orderly_pure ()

theorem orderly_admitCodec (codec : FilterId) (name : String) (r : SessionRef)
    (others : List (String × FilterId)) :
    Orderly ref caught (admitCodec codec name r others : Effect σ Unit) := by
  induction others with
  | nil => exact orderly_pure ()
  | cons other rest ih =>
    have behind : Orderly ref caught (do
        if other.2 != codec then discardPending other.2 r
        admitCodec codec name r rest : Effect σ Unit) := by
      dsimp only
      split
      · exact (orderly_removeAttribute r _).bind fun _ => ih
      · exact ih
    unfold admitCodec
    dsimp only
    split
    · exact (orderly_fail _).bind fun _ => behind
    · exact behind

/-- Nothing is taken off a queue in which nothing waits. -/
theorem orderly_pollQueue (r : SessionRef) {next : Option RequestId → Effect σ α}
    (none : Orderly ref caught (next none))
    (some : r ≠ ref → ∀ id, Orderly ref caught (next (some id))) :
    Orderly ref caught (pollQueue r >>= next) := by
  intro w ready
  cases found : (w.store.session r).queue.poll with
  | none =>
    apply (serves_bind_of_ok (pollQueue_none found)).mpr
    exact none w ready
  | some pair =>
    have other : r ≠ ref := by
      rintro rfl
      rw [ready.queue.poll_nil] at found
      cases found
    apply (serves_bind_of_ok (pollQueue_some found)).mpr
    apply (some other pair.1).from
    apply ready.served.still
    apply (Still.elsewhere w other _).trans
    apply Still.record
    simp [Observation.mark?,other]

theorem orderly_handOver (r : SessionRef) :
    Orderly ref caught (handOver r : Effect σ (Option RequestId)) := by
  apply orderly_pollQueue
  · exact orderly_pure _
  · intro _ id
    exact (orderly_observe rfl).bind fun _ => orderly_pure _

theorem passing_unmarked {c : Chain} {handle : Handle} {r : SessionRef} {event : Event}
    (fair : handle.Fair ref r event)
    (elsewhere : c.following event.outbound handle.entry = Chain.exit event.outbound →
      ∀ id, event = .filterWrite id → r ≠ ref) :
    (passing c handle r event).mark? ref = none := by
  unfold passing
  dsimp only
  split
  · rename_i last
    cases event with
    | filterWrite id => exact if_neg (elsewhere (beq_iff_eq.mp last) id rfl)
    | messageSent id => exact if_neg fun ⟨owner,first,same⟩ => fair id rfl owner same first
    | _ => rfl
  · cases event with
    | messageSent id => exact if_neg fun ⟨owner,first,same⟩ => fair id rfl owner same first
    | _ => rfl

theorem orderly_edit {r : SessionRef} {change : Chain → Chain} {o : Observation}
    (headed : r = ref → ∀ c : Chain, c.Headed → (change c).Headed) (unmarked : o.mark? ref = none) :
    Orderly ref caught (do modifyChain r change; observe o : Effect σ Unit) :=
  (orderly_modifyChain r headed).bind fun _ => orderly_observe unmarked

theorem orderly_setFilter (r : SessionRef) (id : EntryId) (filter : FilterId) :
    Orderly ref caught (modifyChain r fun c => c.setFilter id filter : Effect σ Unit) :=
  orderly_modifyChain r fun _ _ headed => headed.setFilter id filter

/-- The slot of a new entry is not the head. -/
theorem orderly_allocateEntry {α : Type} (r : SessionRef) (name : String) (filter : FilterId)
    {next : Handle → Effect σ α}
    (rest : ∀ handle, (r = ref → handle.entry ≠ Chain.head) → Orderly ref caught (next handle)) :
    Orderly ref caught (allocateEntry r name filter >>= next) := by
  intro w ready
  have allocated (same : r = ref) : ((w.store.chain r).allocate name filter).1 ≠ Chain.head ∧
      ((w.store.chain r).allocate name filter).2.Headed :=
    Chain.Headed.allocate (same ▸ ready.headed) name filter
  have reserved : Still ref w (w.reserve r name filter) :=
    .mapChain w r fun same _ => (allocated same).2
  apply (serves_bind_of_ok (allocateEntry_apply r name filter w)).mpr
  apply (rest _ _).from (ready.served.still reserved)
  exact fun same => (allocated same).1

section Edits

variable {r : SessionRef} {handle : Handle} (other : r = ref → handle.entry ≠ Chain.head)
include other

theorem orderly_discardEntry : Orderly ref caught (discardEntry r handle : Effect σ Unit) :=
  orderly_edit (fun same _ headed => headed.release (other same)) rfl

theorem orderly_linkEntry (name : String) (position : Position) :
    Orderly ref caught (linkEntry r handle name position : Effect σ Unit) :=
  orderly_edit (fun same _ headed => headed.insert (other same) name position) rfl

theorem orderly_dropEntry (name : String) :
    Orderly ref caught (dropEntry r handle name : Effect σ Unit) :=
  orderly_edit (fun same _ headed => headed.drop (other same) name) rfl

end Edits

/-- What it performs serves requests, if it is asked as fair code asks; and it serves a request that
waits when it is to take it off the queue. -/
structure Attends (ref : SessionRef) (caught : Prop) (perform : Perform σ) : Prop where
  performs : ∀ task : Task, task.Fair ref → Orderly ref caught (perform task)
  drains : ∀ (w : World σ) (before : List Mark) (id : RequestId) (processor : ProcessorId),
    w.Ready ref [id] → w.store.marks ref = before ++ [Mark.reached id] →
    Serves ref caught before (perform (.drain processor ref)) w

section Filters

variable {onward : Event → Effect σ Unit} {own : CodeId → Effect σ Unit}

theorem orderly_forwardFrames (passes : ∀ message, Orderly ref caught (onward (.messageReceived message)))
    (frames : List Bytes) : Orderly ref caught (forwardFrames onward frames) := by
  induction frames with
  | nil => exact orderly_pure ()
  | cons frame rest ih => exact (passes _).bind fun _ => ih

/-- A filter passes on that a request was sent only where it is told that one was. -/
theorem orderly_react {event : Event}
    (passes : ∀ event', ((∃ id, event' = .messageSent id) → ∃ id, event = .messageSent id) →
      Orderly ref caught (onward event'))
    (runs : ∀ code, Orderly ref caught (own code)) (id : FilterId) (r : SessionRef) :
    Orderly ref caught (react onward own id r event) := by
  have frames (list : List Bytes) : Orderly ref caught (forwardFrames onward list) :=
    orderly_forwardFrames (fun _ => passes _ (by rintro ⟨_,⟨⟩⟩)) list
  apply (orderly_filter id).bind
  intro f
  cases f with
  | noop => exact passes event fun sent => sent
  | adapter => exact passes event fun sent => sent
  | logging settings =>
    apply Orderly.bind
    · exact orderly_store.bind fun _ => orderly_logBytes _ _ _ _
    · exact fun _ => passes event fun sent => sent
  | custom label code => exact runs code
  | codec writeMaximum readMaximum =>
    dsimp only
    unfold codecEvent
    split
    · exact (orderly_removeAttribute _ _).bind fun _ => passes _ fun sent => sent
    · apply (orderly_session r).bind
      intro s
      dsimp only
      split
      · exact (orderly_setAttribute _ _ _).bind fun _ => frames _
      · exact (orderly_log _ _ _).bind fun _ => (orderly_setAttribute _ _ _).bind
          fun _ => (frames _).bind fun _ => passes _ (by rintro ⟨_,⟨⟩⟩)
    · exact (orderly_request _).bind fun _ => passes _ fun _ => ⟨_,rfl⟩
    · apply (orderly_request _).bind
      intro r
      split
      · exact passes _ fun sent => sent
      · exact (orderly_ofExcept _).bind fun _ => (orderly_sessionId _).bind fun _ =>
          (orderly_log _ _ _).bind fun _ => ((orderly_request _).bind fun _ =>
            orderly_newRequest _).bind fun _ => passes _ (by rintro ⟨_,⟨⟩⟩)
    · exact passes _ fun sent => sent

end Filters

section Performing

variable {perform : Perform σ} (attends : Attends ref caught perform)
include attends

theorem orderly_runCode (code : CodeId) (how : Invocation) :
    Orderly ref caught (runCode perform code how) :=
  (attends.performs (.run code how) trivial).bind fun _ => orderly_pure ()

theorem orderly_runHook (id : FilterId) (hook : Hook) (name : String) (handle : Handle) :
    Orderly ref caught (runHook perform id hook name handle) := by
  apply (orderly_observe rfl).bind
  intro _
  apply (orderly_filter id).bind
  intro f
  split
  · exact orderly_runCode attends _ _
  · exact (orderly_store.bind fun _ => orderly_pure _).bind fun _ => orderly_admitCodec _ _ _ _
  · exact orderly_removeAttribute _ _
  · exact orderly_setAttribute _ _ _
  · exact orderly_removeAttribute _ _
  · exact orderly_pure ()

theorem orderly_notify (future : FutureId) (listener : CodeId) :
    Orderly ref caught (notify perform future listener) :=
  (orderly_observe rfl).bind fun _ => orderly_runCode attends _ _

theorem orderly_runListeners (future : FutureId) (listeners : List CodeId) :
    Orderly ref caught (runListeners perform future listeners) := by
  induction listeners with
  | nil => exact orderly_pure ()
  | cons listener rest ih => exact (orderly_notify attends future listener).bind fun _ => ih

theorem orderly_complete (future : FutureId) (outcome : Outcome) :
    Orderly ref caught (complete perform future outcome) := by
  apply orderly_store.bind
  intro s
  dsimp only
  split
  · exact orderly_pure _
  · apply Orderly.bind
    · exact orderly_modifyStore (fun _ => rfl) (fun _ => rfl) fun _ => rfl
    · exact fun _ => (orderly_runListeners attends _ _).bind fun _ => orderly_pure _

theorem orderly_listen (future : FutureId) (listener : CodeId) :
    Orderly ref caught (listen perform future listener) := by
  apply orderly_store.bind
  intro s
  split
  · exact orderly_notify attends future listener
  · exact orderly_modifyStore (fun _ => rfl) (fun _ => rfl) fun _ => rfl

theorem orderly_completeRequest (id : RequestId) (outcome : Outcome) :
    Orderly ref caught (completeRequest perform id outcome) := by
  apply (orderly_request id).bind
  intro r
  split
  · exact (orderly_complete attends _ _).bind fun _ => orderly_pure ()
  · exact orderly_pure ()

theorem orderly_failPending (r : SessionRef) (dropped : Nat) :
    Orderly ref caught (failPending perform r dropped) := by
  apply orderly_pollQueue
  · exact (orderly_observe rfl).bind fun _ => orderly_pure _
  · intro _ id
    apply (orderly_sessionId r).bind
    intro _
    apply (orderly_completeRequest attends _ _).bind
    intro _
    apply (attends.performs (.failPending r _) trivial).bind
    intro reply
    split <;> exact orderly_pure _

theorem orderly_callHandler (r : SessionRef) (event : Event) :
    Orderly ref caught (callHandler perform r event) := by
  apply orderly_store.bind
  intro s
  apply (orderly_session r).bind
  intro _
  split
  · exact orderly_pure ()
  · exact orderly_runCode attends _ _

theorem orderly_flush (processor : ProcessorId) (r : SessionRef) :
    Orderly ref caught (flush perform processor r) := by
  apply orderly_store.bind
  intro s
  split
  · exact (attends.performs (.drain processor r) trivial).bind fun _ => orderly_pure ()
  · exact orderly_runCode attends _ _

theorem orderly_removeSession (processor : ProcessorId) (r : SessionRef) :
    Orderly ref caught (removeSession perform processor r) := by
  apply orderly_store.bind
  intro s
  split
  · apply (orderly_session r).bind
    intro _
    split
    · exact (attends.performs (.fire r .sessionClosed) (fun _ => nofun)).bind fun _ => orderly_pure ()
    · exact orderly_pure ()
  · exact orderly_runCode attends _ _

theorem orderly_enterClosed (r : SessionRef) : Orderly ref caught (enterClosed perform r) :=
  (orderly_enter r _).bind fun _ => (orderly_failPending attends r 0).bind fun _ =>
    (orderly_sessionId r).bind fun _ => orderly_log _ _ _

/-- At the end of a chain, unless a request reaches the queue of the session. -/
theorem orderly_terminate {r : SessionRef} {event : Event}
    (elsewhere : ∀ id, event = .filterWrite id → r ≠ ref) :
    Orderly ref caught (terminate perform r event) := by
  have handled := orderly_callHandler attends r event
  have counted {change : Session → Session} (processor : ∀ s, (change s).processor = s.processor)
      (queue : ∀ s, (change s).queue = s.queue) (chain : ∀ s, (change s).chain = s.chain) :
      Orderly ref caught (do modifySession r change; callHandler perform r event) :=
    (orderly_modifySession r processor queue chain).bind fun _ => handled
  unfold terminate
  split
  · exact (orderly_enterOpened r).bind fun _ => handled
  · exact (orderly_enterClosed attends r).bind fun _ => handled
  · exact counted (fun _ => rfl) (fun _ => rfl) fun _ => rfl
  · exact counted (fun _ => rfl) (fun _ => rfl) fun _ => rfl
  · have other := elsewhere _ rfl
    apply Orderly.bind
    · exact orderly_of_still fun w => ⟨(),_,rfl,.elsewhere w other _⟩
    · exact fun _ => (orderly_session r).bind fun _ => orderly_flush attends _ r
  · exact (orderly_session r).bind fun _ => orderly_removeSession attends _ r
  · exact handled

/-- A request that reaches the queue is taken off it at once. -/
theorem arrival_serves (ready : w.Ready ref []) (handle : Handle) (id : RequestId) :
    Serves ref caught (w.store.marks ref) (do
      observe (.arrived handle ref (.filterWrite id))
      terminate perform ref (.filterWrite id)) w := by
  have queued : (w.enqueue handle ref id).Ready ref [id] := by
    have told : (w.record (.arrived handle ref (.filterWrite id))).Ready ref [] :=
      ready.congr rfl fun _ flushed found => ⟨flushed,found⟩
    apply told.mapSession
    · exact fun _ _ => rfl
    · intro _
      have grown := told.queue.offer_capacity id
      exact ⟨told.queue.offer id,grown.trans (by simpa using told.small)⟩
    · exact fun _ => told.headed
    · exact fun other => absurd rfl other
  have marks : (w.enqueue handle ref id).store.marks ref = w.store.marks ref ++ [Mark.reached id] := by
    change (w.record (.arrived handle ref (.filterWrite id))).store.marks ref = _
    rw [marks_record]
    simp [Observation.mark?]
  obtain ⟨flushed,loopback⟩ := queued.loopback
  have looped : (w.enqueue handle ref id).store.processor
      ((w.enqueue handle ref id).store.session ref).processor = .loopback flushed := by
    rw [Store.processor,Array.getD_eq_getD_getElem?,loopback]
    rfl
  apply (serves_bind_of_ok (observe_apply _ w)).mpr
  unfold terminate
  have enqueued : modifySession ref (fun s => { s with queue := s.queue.offer id })
      (w.record (.arrived handle ref (.filterWrite id))) = .ok () (w.enqueue handle ref id) :=
    modifySession_apply ref _ _
  apply (serves_bind_of_ok enqueued).mpr
  apply (serves_bind_of_ok (session_apply ref _)).mpr
  unfold flush
  apply (serves_bind_of_ok (store_apply _)).mpr
  rw [looped]
  exact (attends.drains _ _ id _ queued marks).bind fun _ => orderly_pure ()

section Forward

variable {c : Chain} {handle : Handle} {r : SessionRef} {event : Event}

/-- The next filter, or the end of the chain. No filter is told at the head that a request was sent. -/
theorem orderly_beyond (headed : handle.owner = ref → c.Headed)
    (elsewhere : c.following event.outbound handle.entry = Chain.exit event.outbound →
      ∀ id, event = .filterWrite id → r ≠ ref) : Orderly ref caught (beyond perform c handle r event) := by
  unfold beyond
  dsimp only
  split
  · rename_i last
    exact orderly_terminate attends (elsewhere (beq_iff_eq.mp last))
  · split
    · rename_i filter _
      have fair : (Task.deliver filter (c.handle handle.owner
          (c.following event.outbound handle.entry)) r event).Fair ref := by
        rintro id rfl owner _
        exact (headed owner).following _
      exact (attends.performs _ fair).bind fun _ => orderly_pure ()
    · exact orderly_pure ()

theorem orderly_forward
    (fair : handle.Fair ref r event) :
    Orderly ref caught (forward perform handle r event) := by
  intro w ready
  by_cases current : (w.store.chain handle.owner).isCurrent handle = true
  · by_cases arrives : (w.store.chain handle.owner).following event.outbound handle.entry =
        Chain.exit event.outbound ∧ ∃ id, event = .filterWrite id ∧ r = ref
    · obtain ⟨last,id,rfl,rfl⟩ := arrives
      unfold Serves ends
      rw [forward_end rfl current last]
      exact arrival_serves attends ready handle id
    · have elsewhere (last : (w.store.chain handle.owner).following event.outbound handle.entry =
          Chain.exit event.outbound) (id : RequestId) (write : event = .filterWrite id) : r ≠ ref :=
        fun same => arrives ⟨last,id,write,same⟩
      have headed (owner : handle.owner = ref) : (w.store.chain handle.owner).Headed :=
        owner ▸ ready.headed
      unfold forward
      apply (serves_bind_of_ok (chain_apply _ w)).mpr
      rw [if_pos current]
      exact (orderly_observe (passing_unmarked fair elsewhere)).bind
        (fun _ => orderly_beyond attends headed elsewhere) w ready
  · unfold Serves ends
    rw [forward_stale rfl (Bool.eq_false_iff.mpr current)]
    exact orderly_logChain _ _ _ w ready

theorem orderly_fire (fair : ∀ id, event = .messageSent id → r ≠ ref) :
    Orderly ref caught (fire perform r event) :=
  orderly_forward attends fun id sent owner _ => absurd owner (fair id sent)

/-- A request that has been taken is announced. -/
theorem announcement_serves {row : List Mark} {id : RequestId} (ready : w.Ready ref [])
    (marks : w.store.marks ref = before ++ row) (served : Served caught (row ++ [Mark.sent id])) :
    Serves ref caught before (fire perform ref (.messageSent id)) w := by
  have current : (w.store.chain ref).isCurrent ⟨ref,Chain.head,0⟩ = true := ready.headed.isCurrent ref
  have marked : (passing (w.store.chain ref) ⟨ref,Chain.head,0⟩ ref (.messageSent id)).mark? ref =
      some (.sent id) := by
    unfold passing
    dsimp only
    split <;> simp [Observation.mark?]
  have announced : (w.record (passing (w.store.chain ref) ⟨ref,Chain.head,0⟩ ref
      (.messageSent id))).Served ref caught before := by
    refine ⟨ready.congr rfl fun _ flushed found => ⟨flushed,found⟩,row ++ [Mark.sent id],?_,served⟩
    rw [marks_record,marked,marks,List.append_assoc]
    rfl
  unfold fire forward
  apply (serves_bind_of_ok (chain_apply _ w)).mpr
  change Serves ref caught before (if (w.store.chain ref).isCurrent ⟨ref,Chain.head,0⟩ = true then _
    else _) w
  rw [if_pos current]
  apply (serves_bind_of_ok (observe_apply _ w)).mpr
  exact (orderly_beyond attends (fun _ => ready.headed) (by rintro _ _ ⟨⟩)).from announced

end Forward

theorem orderly_drain (processor : ProcessorId) (r : SessionRef) :
    Orderly ref caught (drain perform processor r) := by
  apply orderly_pollQueue
  · exact orderly_pure ()
  · intro other id
    apply Orderly.bind
    · exact orderly_of_still fun w => ⟨(),_,rfl,.count w processor⟩
    · exact fun _ => (orderly_completeRequest attends id .written).bind
        fun _ => (orderly_fire attends fun _ _ => other).bind
        fun _ => (attends.performs (.drain processor r) trivial).bind fun _ => orderly_pure ()

/-- A request that waits is taken and completed, and what is written meanwhile is served before it is
announced. -/
theorem drain_serves {id : RequestId} (ready : w.Ready ref [id])
    (marks : w.store.marks ref = before ++ [Mark.reached id]) (processor : ProcessorId) :
    Serves ref caught before (drain perform processor ref) w := by
  obtain ⟨rest,found,held,shrunk⟩ := ready.queue.poll_cons ready.small
  have emptied : (w.dequeue ref id rest).Ready ref [] := by
    have left : (w.mapSession ref fun s => { s with queue := rest }).Ready ref [] := by
      apply ready.mapSession
      · exact fun _ _ => rfl
      · exact fun _ => ⟨held,shrunk.trans ready.small⟩
      · exact fun _ => ready.headed
      · exact fun other => absurd rfl other
    exact left.congr rfl fun _ flushed found => ⟨flushed,found⟩
  have taken : (w.dequeue ref id rest).store.marks ref =
      before ++ [Mark.reached id,Mark.taken id] := by
    rw [dequeue,marks_record]
    have same : (w.mapSession ref fun s => { s with queue := rest }).store.marks ref =
      w.store.marks ref := rfl
    simp [Observation.mark?,same,marks]
  unfold drain
  apply (serves_bind_of_ok (pollQueue_some found)).mpr
  apply (serves_bind_of_ok (modifyStore_apply _ _)).mpr
  have counted : Still ref (w.dequeue ref id rest) _ := .count _ processor
  apply ends_bind.mpr
  apply ends_mono (orderly_completeRequest attends id .written _ (counted.ready [] emptied))
  · intro _ w' completed
    obtain ⟨ready,inner,marks,served⟩ := completed
    rw [counted.marks,taken,List.append_assoc] at marks
    apply Serves.bind
    · exact announcement_serves attends ready marks (.whole id served)
    · exact fun _ => (attends.performs (.drain processor ref) trivial).bind fun _ => orderly_pure ()
  · intro _ w' failed
    obtain ⟨ready,inner,marks,served⟩ := failed
    rw [counted.marks,taken,List.append_assoc] at marks
    exact ⟨ready,_,marks,.cut id trivial served⟩
  · intro w' stopped
    obtain ⟨inner,marks,underway⟩ := stopped
    rw [counted.marks,taken,List.append_assoc] at marks
    exact ⟨_,marks,underway.inside id⟩

theorem orderly_write (r : SessionRef) (message : Message) :
    Orderly ref caught (write perform r message) := by
  apply orderly_newFuture.bind
  intro future
  apply (orderly_session r).bind
  intro s
  split
  · exact (orderly_log _ _ _).bind fun _ => (orderly_complete attends _ _).bind fun _ => orderly_pure _
  · exact (orderly_newRequest _).bind fun _ => (orderly_fire attends (by rintro _ ⟨⟩)).bind
      fun _ => orderly_pure _

theorem orderly_close (r : SessionRef) : Orderly ref caught (close perform r) := by
  apply (orderly_session r).bind
  intro s
  split
  · exact orderly_pure ()
  · exact (orderly_log _ _ _).bind fun _ => (orderly_enter r _).bind
      fun _ => (orderly_observe rfl).bind fun _ => orderly_fire attends (by rintro _ ⟨⟩)

theorem orderly_deliver {handle : Handle} {r : SessionRef} {event : Event} (id : FilterId)
    (fair : handle.Fair ref r event) :
    Orderly ref caught (deliver perform id handle r event) := by
  apply orderly_react
  · intro event' told
    apply orderly_forward attends
    intro request sent
    obtain ⟨other,sent⟩ := told ⟨request,sent⟩
    exact fair other sent
  · exact fun code => orderly_runCode attends code _

theorem orderly_confirmEntry {r : SessionRef} {handle : Handle}
    (other : r = ref → handle.entry ≠ Chain.head) (name : String) (filter : FilterId) :
    Orderly ref caught (confirmEntry perform r name filter handle) := by
  have rolled (failure : Failure) (text : String) : Rejects ref (do
      logChain r .debug text
      fail failure : Effect σ Unit) :=
    .after (orderly_logChain r .debug text) fun _ => rejects_fail failure
  apply (orderly_runHook attends filter .postAdd name handle).attempt_bind
  · intro failure
    apply Rejects.after (orderly_read _ fun w => chain_apply r w)
    intro c
    dsimp only
    split
    · exact .after (orderly_dropEntry other name) fun _ => rolled failure _
    · exact rolled failure _
  · exact fun _ => orderly_pure ()

theorem orderly_admitEntry {α : Type} (r : SessionRef) (position : Position) (name : String)
    (filter : FilterId) {next : Handle → Effect σ α}
    (rest : ∀ handle, (r = ref → handle.entry ≠ Chain.head) → Orderly ref caught (next handle)) :
    Orderly ref caught (admitEntry perform r position name filter >>= next) := by
  unfold admitEntry
  rw [bind_assoc]
  apply orderly_chain
  intro c _
  rw [bind_assoc]
  apply (orderly_ofExcept _).bind
  intro _
  rw [bind_assoc]
  apply orderly_allocateEntry
  intro handle other
  rw [bind_assoc]
  apply (orderly_runHook attends filter .preAdd name handle).attempt_bind
  · intro failure
    exact .bind (.after (orderly_discardEntry other) fun _ => rejects_fail _) next
  · intro _
    dsimp only
    rw [bind_assoc]
    apply orderly_chain
    intro c _
    split
    · rw [bind_assoc]
      exact (orderly_discardEntry other).bind fun _ => ((rejects_fail _).bind next).orderly
    · rw [bind_assoc]
      exact (orderly_linkEntry other name position).bind fun _ => rest handle other

theorem orderly_add (r : SessionRef) (position : Position) (name : String) (filter : Option FilterId) :
    Orderly ref caught (add perform r position name filter) := by
  apply (orderly_needFilter name filter).bind
  intro id
  apply orderly_admitEntry attends
  intro handle other
  exact orderly_store.bind fun _ => (orderly_logChain _ _ _).bind
    fun _ => orderly_confirmEntry attends other name id

theorem orderly_addAll (r : SessionRef) (entries : List (String × FilterId)) :
    Orderly ref caught (addAll perform r entries) := by
  induction entries with
  | nil => exact orderly_pure ()
  | cons entry rest ih => exact (orderly_add attends r _ _ _).bind fun _ => ih

theorem orderly_removeEntry {r : SessionRef} {id : EntryId} (other : r = ref → id ≠ Chain.head) :
    Orderly ref caught (removeEntry perform r id) := by
  apply orderly_chain
  intro c _
  dsimp only
  split
  · exact orderly_pure _
  · rename_i filter _
    apply (orderly_runHook attends filter _ _ _).attempt_bind
    · exact fun _ => (rejects_fail _).bind _
    · intro _
      apply orderly_chain
      intro _ _
      split
      · exact (orderly_dropEntry other _).bind fun _ => (orderly_logChain _ _ _).bind
          fun _ => (orderly_runHook attends _ _ _ _).bind fun _ => orderly_pure _
      · exact orderly_pure _

theorem orderly_remove (r : SessionRef) (name : String) :
    Orderly ref caught (remove perform r name) := by
  apply orderly_chain
  intro c headed
  split
  · rename_i id found
    exact orderly_removeEntry attends fun same => (headed same).picks_ne (.named found)
  · exact orderly_fail _

theorem orderly_removeFilter (r : SessionRef) (filter : Option FilterId) :
    Orderly ref caught (removeFilter perform r filter) := by
  apply orderly_chain
  intro c headed
  split
  · rename_i id found
    apply Orderly.bind
    · exact orderly_removeEntry attends fun same => (headed same).picks_ne (.holding found)
    · exact fun _ => orderly_pure _
  · exact orderly_store.bind fun _ => orderly_fail _

theorem orderly_clear (r : SessionRef) : Orderly ref caught (clear perform r) := by
  apply orderly_chain
  intro c headed
  split
  · rename_i id next
    split
    · exact orderly_pure ()
    · rename_i entry
      have removes := orderly_removeEntry attends fun same =>
        (headed same).picks_ne (.first next (by simpa using entry))
      exact removes.bind fun _ => (attends.performs (.clear r) trivial).bind fun _ => orderly_pure ()
  · exact orderly_pure ()

theorem orderly_exchange (r : SessionRef) (name : String) (filter : FilterId) (handle : Handle) :
    Orderly ref caught (exchange perform r name filter handle) := by
  apply orderly_chain
  intro c _
  dsimp only
  split
  · exact ((rejects_fail _).bind _).orderly
  · split
    · exact orderly_pure _
    · apply (orderly_setFilter r _ _).bind
      intro _
      apply orderly_store.bind
      intro _
      apply (orderly_logChain _ _ _).bind
      intro _
      apply (orderly_runHook attends filter _ _ _).attempt_bind
      · intro failure
        apply Rejects.after (orderly_read _ fun w => chain_apply r w)
        intro c
        split
        · exact .after (orderly_setFilter r _ _) fun _ => rejects_fail _
        · exact rejects_fail _
      · exact fun _ => orderly_pure _

theorem orderly_replace (r : SessionRef) (name : String) (filter : Option FilterId) :
    Orderly ref caught (replace perform r name filter) := by
  apply (orderly_needFilter name filter).bind
  intro id
  apply orderly_chain
  intro c _
  apply (orderly_ofExcept _).bind
  intro handle
  apply (orderly_runHook attends id _ _ _).attempt_bind
  · exact fun _ => (rejects_fail _).bind _
  · exact fun _ => orderly_exchange attends r name id handle

theorem orderly_validateWith (factory : Factory) (config : Json) :
    Orderly ref caught (validateWith perform factory config) := by
  unfold validateWith
  split
  · exact orderly_pure _
  · exact orderly_pure _
  · exact orderly_pure _
  · apply (attends.performs (.run _ _) trivial).bind
    intro reply
    split <;> exact orderly_pure _

theorem orderly_createWith (factory : Factory) (config : Json) :
    Orderly ref caught (createWith perform factory config) := by
  unfold createWith
  split
  · exact (orderly_makeFilter _).bind fun _ => orderly_pure _
  · exact (orderly_ofExcept _).bind fun _ => (orderly_makeFilter _).bind
      fun _ => (orderly_ofExcept _).bind fun _ => (orderly_modifyFilter _ _).bind
      fun _ => orderly_pure _
  · exact (orderly_ofExcept _).bind fun _ => (orderly_makeFilter _).bind fun _ => orderly_pure _
  · apply (attends.performs (.run _ _) trivial).bind
    intro reply
    split <;> exact orderly_pure _

theorem orderly_createValid (type : String) (factory : Factory) (config : Json) :
    Orderly ref caught (createValid perform type factory config) := by
  apply (orderly_createWith attends factory config).attempt_bind
  · intro failure
    dsimp only
    split
    · exact .after (orderly_log _ _ _) fun _ => rejects_fail _
    · exact rejects_fail _
  · intro made
    cases made with
    | none => exact orderly_fail _
    | some filter => exact (orderly_log _ _ _).bind fun _ => orderly_pure _

theorem orderly_createFilter (type : String) (config : Json) :
    Orderly ref caught (createFilter perform type config) := by
  apply orderly_store.bind
  intro s
  split
  · exact (orderly_log _ _ _).bind fun _ => orderly_fail _
  · apply (orderly_validateWith attends _ _).bind
    intro valid
    dsimp only
    split
    · exact (orderly_log _ _ _).bind fun _ => ((rejects_fail _).bind _).orderly
    · exact orderly_createValid attends _ _ _

theorem orderly_configure (config : SessionConfig) :
    Orderly ref caught (configure perform config) := by
  have adds (t : Template) (filters : List FilterConfig) :
      Orderly ref caught (addConfigured perform t filters) := by
    induction filters generalizing t with
    | nil => exact orderly_pure t
    | cons f rest ih =>
      unfold addConfigured
      split
      · exact (orderly_log _ _ _).bind fun _ => ih t
      · exact (orderly_createFilter attends _ _).bind fun _ => (orderly_ofExcept _).bind fun t => ih t
  exact orderly_openFactories.bind fun _ => (orderly_ofExcept _).bind fun _ => (adds _ _).bind
    fun _ => orderly_store.bind fun _ => (orderly_log _ _ _).bind fun _ => orderly_pure _

theorem orderly_ofCall {c : Call} (fair : c.Fair ref) : Orderly ref caught (ofCall perform c) := by
  have answers {α : Type} {m : Effect σ α} (orderly : Orderly ref caught m) (reply : α → Reply) :
      Orderly ref caught (do return reply (← m)) := orderly.bind fun _ => orderly_pure _
  cases c with
  | note note => exact answers (orderly_observe rfl) _
  | print stderr line => exact answers (orderly_observe rfl) _
  | newFilter filter => exact answers (orderly_makeFilter filter) _
  | newHandler handler =>
    have pushed : Orderly ref caught (modifyStore fun s =>
        { s with handlers := s.handlers.push handler } : Effect σ Unit) :=
      orderly_modifyStore (fun _ => rfl) (fun _ => rfl) fun _ => rfl
    exact orderly_store.bind fun _ => pushed.bind fun _ => orderly_pure _
  | newProcessor processor =>
    have pushed : Orderly ref caught (modifyStore fun s =>
        { s with processors := s.processors.push processor } : Effect σ Unit) :=
      orderly_of_still fun w => ⟨(),_,rfl,.newProcessor w processor⟩
    exact orderly_store.bind fun _ => pushed.bind fun _ => orderly_pure _
  | newSession handler processor capacity allocation => exact answers (orderly_newSession _ _ _ _) _
  | add r position name filter => exact answers (orderly_add attends _ _ _ _) _
  | remove r name => exact answers (orderly_remove attends _ _) _
  | removeFilter r filter => exact answers (orderly_removeFilter attends _ _) _
  | replace r name filter => exact answers (orderly_replace attends _ _ _) _
  | clear r => exact answers (orderly_clear attends r) _
  | addAll r entries => exact answers (orderly_addAll attends _ _) _
  | fire r event => exact answers (orderly_fire attends fair) _
  | forward handle r event => exact answers (orderly_forward attends fair) _
  | write r message => exact answers (orderly_write attends _ _) _
  | close r => exact answers (orderly_close attends r) _
  | setAttribute r key value => exact answers (orderly_setAttribute r key value) _
  | removeAttribute r key =>
    exact (orderly_session r).bind fun _ => answers (orderly_removeAttribute r key) _
  | pollQueue r => exact answers (orderly_handOver r) _
  | flush processor r => exact answers (orderly_flush attends _ _) _
  | removeSession processor r => exact answers (orderly_removeSession attends _ _) _
  | newFuture => exact answers orderly_newFuture _
  | complete future outcome => exact answers (orderly_complete attends _ _) _
  | listen future listener => exact answers (orderly_listen attends _ _) _
  | newRequest message future => exact answers (orderly_newRequest _) _
  | wrapRequest inner message =>
    exact answers ((orderly_request inner).bind fun _ => orderly_newRequest _) _
  | setLevel filter event level => exact answers (orderly_modifyFilter filter _) _
  | setAllLevels filter level => exact answers (orderly_modifyFilter filter _) _
  | setGlobalLevel level =>
    have leveled : Orderly ref caught (setGlobalLevel level : Effect σ Unit) :=
      orderly_modifyStore (fun _ => rfl) (fun _ => rfl) fun _ => rfl
    exact answers leveled _
  | log logger level text => exact answers (orderly_log _ _ _) _
  | openFactories => exact answers orderly_openFactories _
  | registerBuiltIn => exact orderly_openFactories.bind fun _ => answers (orderly_registerAll _) _
  | register name factory => exact orderly_openFactories.bind fun _ => answers (orderly_register _ _) _
  | unregister name => exact orderly_openFactories.bind fun _ => answers (orderly_unregister _) _
  | createFilter type config =>
    exact orderly_openFactories.bind fun _ => answers (orderly_createFilter attends _ _) _
  | validateWith factory config => exact answers (orderly_validateWith attends _ _) _
  | createWith factory config => exact answers (orderly_createWith attends _ _) _
  | configure config => exact answers (orderly_configure attends config) _
  | loadConfig path content => exact answers (orderly_loadConfig _ _) _

theorem orderly_answer {c : Call} (fair : c.Fair ref) : Orderly ref caught (answer perform c) :=
  (orderly_needSessions _).bind fun _ => orderly_ofCall attends fair

end Performing

end Effect
end SessionPipeline
