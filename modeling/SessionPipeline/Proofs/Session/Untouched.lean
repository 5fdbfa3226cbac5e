import SessionPipeline.Proofs.Effect.Basic

/-! A pipeline leaves a future alone. It changes, and listeners are told of it, only where it is completed
or listened to, so what those two have in common with whatever leaves it alone every run has. -/
namespace SessionPipeline

/-- Whom an observation tells how this future ended. -/
def Observation.told? (future : FutureId) : Observation → Option CodeId
  | .notified id listener => if id = future then some listener else none
  | _ => none

/-- Who has been told how the future ended, first to last. -/
def Store.told (s : Store) (future : FutureId) : List CodeId :=
  s.journal.reverse.filterMap (·.told? future)

namespace World

variable {σ : Type} {future : FutureId} {w w' : World σ}

/-- The future is as it was, perhaps about to be made, and nobody has been told of it. -/
structure Untouched (future : FutureId) (w w' : World σ) : Prop where
  same : w'.store.future future = w.store.future future
  told : w'.store.told future = w.store.told future

theorem told_record (w : World σ) (o : Observation) :
    (w.record o).store.told future = w.store.told future ++ (o.told? future).toList := by
  unfold Store.told
  cases tells : o.told? future with
  | none => simp [record,mapStore,tells]
  | some listener => simp [record,mapStore,tells]

namespace Untouched

theorem refl (w : World σ) : Untouched future w w := ⟨rfl,rfl⟩

theorem store (futures : w'.store.futures = w.store.futures)
    (journal : w'.store.journal = w.store.journal) : Untouched future w w' := by
  constructor
  · rw [Store.future,futures]
    rfl
  · rw [Store.told,journal]
    rfl

theorem record (w : World σ) {o : Observation} (untold : o.told? future = none) :
    Untouched future w (w.record o) := by
  refine ⟨rfl,?_⟩
  rw [told_record,untold]
  exact List.append_nil _

theorem logged (w : World σ) (logger : String) (level : Logging.Level) (text : Bytes)
    (context : Logging.Context) : Untouched future w (w.logged logger level text context) := by
  refine ⟨rfl,?_⟩
  have untold (emissions : List Logging.Emission) :
      (emissions.map Observation.emitted).filterMap (Observation.told? future) = [] := by
    simp [List.filterMap_eq_nil_iff,Observation.told?]
  simp [Store.told,World.logged,mapStore,untold]

theorem newFuture (w : World σ) :
    Untouched future w (w.mapStore fun s => { s with futures := s.futures.push {} }) := by
  refine ⟨?_,rfl⟩
  simp only [mapStore,Store.future,Array.getD_eq_getD_getElem?,Array.getElem?_push]
  split
  · rename_i new
    rw [new,Array.getElem?_eq_none (Nat.le_refl _)]
    rfl
  · rfl

/-- Another future changes, or one that is not there. -/
theorem modify {other : FutureId} (w : World σ)
    (elsewhere : other ≠ future ∨ w.store.futures.size ≤ other) (change : WriteFuture → WriteFuture) :
    Untouched future w (w.mapStore fun s => { s with futures := s.futures.modify other change }) := by
  refine ⟨?_,rfl⟩
  simp only [mapStore,Store.future,Array.getD_eq_getD_getElem?,Array.getElem?_modify]
  split
  · rename_i same
    rcases elsewhere with differs | unmade
    · exact absurd same differs
    · rw [← same,Array.getElem?_eq_none unmade]
      rfl
  · rfl

end Untouched

end World

namespace Effect

open World

variable {σ α β : Type} {future : FutureId} {R : (α : Type) → Effect σ α → Prop}

/-- A property of whatever leaves the future alone, wherever it starts, and of sequences and attempts of what
has it. -/
class Lasting (future : outParam FutureId) (R : (α : Type) → Effect σ α → Prop) : Prop where
  idle : ∀ {α : Type} {m : Effect σ α}, (∀ w, ∃ a w', m w = .ok a w' ∧ Untouched future w w') → R α m
  fail : ∀ {α : Type} (failure : Failure), R α (fail failure)
  outOfFuel : ∀ {α : Type}, R α (throw .outOfFuel)
  bind : ∀ {α β : Type} {m : Effect σ α} {next : α → Effect σ β},
    R α m → (∀ a, R β (next a)) → R β (m >>= next)
  attempt : ∀ {α : Type} {m : Effect σ α}, R α m → R _ (attempt m)

/-- To have it, so that what has it can be put together by name. -/
def Heeds (R : (α : Type) → Effect σ α → Prop) (m : Effect σ α) : Prop := R α m

variable [Lasting future R]
include future

theorem Heeds.bind {m : Effect σ α} {next : α → Effect σ β} (first : Heeds R m)
    (rest : ∀ a, Heeds R (next a)) : Heeds R (m >>= next) := Lasting.bind first rest

theorem Heeds.attempt {m : Effect σ α} (heeds : Heeds R m) : Heeds R (attempt m) :=
  Lasting.attempt heeds

theorem heeds_idle {m : Effect σ α} (idle : ∀ w, ∃ a w', m w = .ok a w' ∧ Untouched future w w') :
    Heeds R m := Lasting.idle idle

theorem heeds_fail (failure : Failure) : Heeds R (fail failure : Effect σ α) := Lasting.fail failure

theorem heeds_read {m : Effect σ α} (read : World σ → α) (reads : ∀ w, m w = .ok (read w) w) :
    Heeds R m := heeds_idle fun w => ⟨_,w,reads w,.refl w⟩

theorem heeds_pure (a : α) : Heeds R (pure a : Effect σ α) := heeds_read _ fun _ => rfl

theorem heeds_ofExcept (result : Except Failure α) : Heeds R (ofExcept result : Effect σ α) := by
  cases result with
  | ok a => exact heeds_pure a
  | error failure => exact heeds_fail failure

theorem heeds_store : Heeds R (store : Effect σ Store) := heeds_read _ fun _ => rfl

theorem heeds_session (r : SessionRef) : Heeds R (session r : Effect σ Session) :=
  heeds_read _ fun _ => rfl

theorem heeds_sessionId (r : SessionRef) : Heeds R (sessionId r : Effect σ Nat) :=
  heeds_read _ fun _ => rfl

theorem heeds_chain (r : SessionRef) : Heeds R (chain r : Effect σ Chain) :=
  heeds_read _ fun _ => rfl

theorem heeds_filter (id : FilterId) : Heeds R (filter id : Effect σ Filter) :=
  heeds_read _ fun _ => rfl

theorem heeds_request (id : RequestId) : Heeds R (request id : Effect σ WriteRequest) :=
  heeds_read _ fun _ => rfl

theorem heeds_modifyStore {change : Store → Store} (futures : ∀ s, (change s).futures = s.futures)
    (journal : ∀ s, (change s).journal = s.journal) :
    Heeds R (modifyStore change : Effect σ Unit) :=
  heeds_idle fun _ => ⟨(),_,rfl,.store (futures _) (journal _)⟩

theorem heeds_modifySession (r : SessionRef) (change : Session → Session) :
    Heeds R (modifySession r change : Effect σ Unit) :=
  heeds_modifyStore (fun _ => rfl) fun _ => rfl

theorem heeds_modifyChain (r : SessionRef) (change : Chain → Chain) :
    Heeds R (modifyChain r change : Effect σ Unit) := heeds_modifySession r _

theorem heeds_modifyFilter (id : FilterId) (change : Filter → Filter) :
    Heeds R (modifyFilter id change : Effect σ Unit) :=
  heeds_modifyStore (fun _ => rfl) fun _ => rfl

theorem heeds_observe {o : Observation} (untold : ∀ id, o.told? id = none) :
    Heeds R (observe o : Effect σ Unit) :=
  heeds_idle fun w => ⟨(),_,rfl,.record w (untold _)⟩

theorem heeds_edit (r : SessionRef) (change : Chain → Chain) {o : Observation}
    (untold : ∀ id, o.told? id = none) :
    Heeds R (do modifyChain r change; observe o : Effect σ Unit) :=
  (heeds_modifyChain r change).bind fun _ => heeds_observe untold

theorem heeds_logBytes (logger : String) (level : Logging.Level) (text : Bytes)
    (context : Logging.Context) : Heeds R (logBytes logger level text context : Effect σ Unit) :=
  heeds_idle fun w => ⟨(),_,rfl,.logged w logger level text context⟩

theorem heeds_log (logger : String) (level : Logging.Level) (text : String) :
    Heeds R (log logger level text : Effect σ Unit) := heeds_logBytes logger level _ _

theorem heeds_logChain (r : SessionRef) (level : Logging.Level) (text : String) :
    Heeds R (logChain r level text : Effect σ Unit) :=
  (heeds_sessionId r).bind fun _ => heeds_log _ _ _

theorem heeds_newRequest (r : WriteRequest) : Heeds R (newRequest r : Effect σ RequestId) :=
  heeds_idle fun _ => ⟨_,_,rfl,.store rfl rfl⟩

theorem heeds_wrapRequest (inner : RequestId) (message : Message) :
    Heeds R (wrapRequest inner message : Effect σ RequestId) :=
  (heeds_request inner).bind fun _ => heeds_newRequest _

theorem heeds_newFuture : Heeds R (newFuture : Effect σ FutureId) :=
  heeds_idle fun w => ⟨_,_,rfl,.newFuture w⟩

theorem heeds_makeFilter (f : Filter) : Heeds R (makeFilter f : Effect σ FilterId) := by
  have made : Heeds R (newFilter f : Effect σ FilterId) :=
    heeds_idle fun _ => ⟨_,_,rfl,.store rfl rfl⟩
  unfold makeFilter
  split
  · apply Heeds.bind
    · exact heeds_modifyStore (fun _ => rfl) fun _ => rfl
    · exact fun _ => made
  · exact made

theorem heeds_register (name : String) (factory : Option Factory) :
    Heeds R (register name factory : Effect σ Bool) := by
  unfold register
  split
  · exact (heeds_log _ _ _).bind fun _ => heeds_pure _
  · apply heeds_store.bind
    intro s
    dsimp only
    split
    · exact (heeds_log _ _ _).bind fun _ => heeds_pure _
    · apply Heeds.bind
      · exact heeds_modifyStore (fun _ => rfl) fun _ => rfl
      · exact fun _ => (heeds_log _ _ _).bind fun _ => heeds_pure _

theorem heeds_registerAll (factories : List (String × Factory)) :
    Heeds R (registerAll factories : Effect σ Unit) := by
  induction factories with
  | nil => exact heeds_pure ()
  | cons factory rest ih => exact (heeds_register _ _).bind fun _ => ih

theorem heeds_openFactories : Heeds R (openFactories : Effect σ Unit) := by
  apply heeds_store.bind
  intro s
  split
  · exact heeds_registerAll _
  · exact heeds_pure ()

theorem heeds_unregister (name : String) : Heeds R (unregister name : Effect σ Bool) := by
  apply heeds_store.bind
  intro s
  apply Heeds.bind
  · exact heeds_modifyStore (fun _ => rfl) fun _ => rfl
  · exact fun _ => heeds_pure _

theorem heeds_loadConfig (path : String) (content : Option String) :
    Heeds R (loadConfig path content : Effect σ SessionConfig) := by
  unfold loadConfig
  split
  · exact heeds_fail _
  · split
    · exact heeds_fail _
    · exact (heeds_ofExcept _).bind fun _ => (heeds_ofExcept _).bind fun _ =>
        (heeds_log _ _ _).bind fun _ => heeds_pure _

theorem heeds_newSession (handler : Option HandlerId) (processor : Option ProcessorId)
    (capacity : UInt64) (allocation : Allocation) :
    Heeds R (newSession handler processor capacity allocation : Effect σ SessionRef) := by
  apply heeds_store.bind
  intro s
  apply Heeds.bind
  · exact heeds_modifyStore (fun _ => rfl) fun _ => rfl
  intro _
  apply (heeds_ofExcept _).bind
  intro queue
  split
  · exact heeds_fail _
  · exact heeds_fail _
  · apply heeds_store.bind
    intro _
    apply Heeds.bind
    · exact heeds_modifyStore (fun _ => rfl) fun _ => rfl
    · exact fun _ => (heeds_log _ _ _).bind fun _ => heeds_pure _

theorem heeds_needFilter (name : String) (filter : Option FilterId) :
    Heeds R (needFilter name filter : Effect σ FilterId) := by
  cases filter with
  | none => exact heeds_fail _
  | some id => exact heeds_pure id

theorem heeds_needSessions (refs : List SessionRef) :
    Heeds R (needSessions refs : Effect σ Unit) := by
  apply heeds_store.bind
  intro s
  split
  · exact heeds_fail _
  · exact heeds_pure ()

theorem heeds_admitCodec (codec : FilterId) (name : String) (r : SessionRef)
    (others : List (String × FilterId)) :
    Heeds R (admitCodec codec name r others : Effect σ Unit) := by
  induction others with
  | nil => exact heeds_pure ()
  | cons other rest ih =>
    have behind : Heeds R (do
        if other.2 != codec then discardPending other.2 r
        admitCodec codec name r rest : Effect σ Unit) := by
      dsimp only
      split
      · exact (heeds_modifySession r _).bind fun _ => ih
      · exact ih
    unfold admitCodec
    dsimp only
    split
    · exact (heeds_fail _).bind fun _ => behind
    · exact behind

theorem heeds_pollQueue (r : SessionRef) : Heeds R (pollQueue r : Effect σ (Option RequestId)) := by
  apply (heeds_session r).bind
  intro s
  split
  · exact (heeds_modifySession r _).bind fun _ => (heeds_observe fun _ => rfl).bind
      fun _ => heeds_pure _
  · exact heeds_pure _

theorem heeds_handOver (r : SessionRef) : Heeds R (handOver r : Effect σ (Option RequestId)) := by
  apply (heeds_pollQueue r).bind
  intro polled
  split
  · exact (heeds_observe fun _ => rfl).bind fun _ => heeds_pure _
  · exact heeds_pure _

theorem heeds_allocateEntry (r : SessionRef) (name : String) (filter : FilterId) :
    Heeds R (allocateEntry r name filter : Effect σ Handle) :=
  (heeds_chain r).bind fun _ => (heeds_modifyChain r _).bind fun _ => heeds_pure _

theorem heeds_enterOpened (r : SessionRef) : Heeds R (enterOpened r : Effect σ Unit) := by
  apply (heeds_session r).bind
  intro s
  split
  · exact heeds_modifySession r _
  · exact heeds_pure ()

theorem heeds_react {onward : Event → Effect σ Unit} {own : CodeId → Effect σ Unit}
    (passes : ∀ event, Heeds R (onward event)) (runs : ∀ code, Heeds R (own code)) (id : FilterId)
    (r : SessionRef) (event : Event) : Heeds R (react onward own id r event) := by
  have frames (list : List Bytes) : Heeds R (forwardFrames onward list) := by
    induction list with
    | nil => exact heeds_pure ()
    | cons frame rest ih => exact (passes _).bind fun _ => ih
  apply (heeds_filter id).bind
  intro f
  cases f with
  | noop => exact passes event
  | adapter => exact passes event
  | logging settings =>
    apply Heeds.bind
    · exact heeds_store.bind fun _ => heeds_logBytes _ _ _ _
    · exact fun _ => passes event
  | custom label code => exact runs code
  | codec writeMaximum readMaximum =>
    dsimp only
    unfold codecEvent
    split
    · exact (heeds_modifySession r _).bind fun _ => passes _
    · apply (heeds_session r).bind
      intro s
      dsimp only
      split
      · exact (heeds_modifySession r _).bind fun _ => frames _
      · exact (heeds_log _ _ _).bind fun _ => (heeds_modifySession r _).bind
          fun _ => (frames _).bind fun _ => passes _
    · exact (heeds_request _).bind fun _ => passes _
    · apply (heeds_request _).bind
      intro request
      split
      · exact passes _
      · exact (heeds_ofExcept _).bind fun _ => (heeds_sessionId _).bind fun _ =>
          (heeds_log _ _ _).bind fun _ => (heeds_wrapRequest _ _).bind fun _ => passes _
    · exact passes _

theorem heeds_interpret {respond : Call → Effect σ Reply} (responds : ∀ c, Heeds R (respond c))
    (script : Script σ) : Heeds R (interpret respond script) := by
  induction script with
  | done reply => exact heeds_pure reply
  | fail failure => exact heeds_fail failure
  | look next ih => exact heeds_store.bind ih
  | get next ih => exact (heeds_read _ fun _ => rfl).bind fun w => ih w.own
  | set state next ih =>
    have kept : Heeds R (modify fun w => { w with own := state } : Effect σ Unit) :=
      heeds_idle fun _ => ⟨(),_,rfl,.store rfl rfl⟩
    exact kept.bind fun _ => ih
  | define code next _ ih =>
    have kept : Heeds R (modify fun w => { w with code := w.code.push code } : Effect σ Unit) :=
      heeds_idle fun _ => ⟨(),_,rfl,.store rfl rfl⟩
    exact (heeds_read _ fun _ => rfl).bind fun w => kept.bind fun _ => ih w.code.size
  | call c next ih => exact (responds c).bind ih
  | attempt body next tried ih => exact tried.attempt.bind ih

/-- Tasks have the property, and so does completing the future and listening to it. -/
structure Minds (future : FutureId) (R : (α : Type) → Effect σ α → Prop) (perform : Perform σ) : Prop where
  performs : ∀ task, Heeds R (perform task)
  completes : ∀ outcome, Heeds R (complete perform future outcome)
  listens : ∀ listener, Heeds R (listen perform future listener)

section Performing

variable {perform : Perform σ} (minds : Minds future R perform)
include minds

theorem heeds_perform (task : Task) : Heeds R (do let _ ← perform task) :=
  (minds.performs task).bind fun _ => heeds_pure ()

theorem heeds_runCode (code : CodeId) (how : Invocation) : Heeds R (runCode perform code how) :=
  heeds_perform minds (.run code how)

theorem heeds_runHook (id : FilterId) (hook : Hook) (name : String) (handle : Handle) :
    Heeds R (runHook perform id hook name handle) := by
  apply (heeds_observe fun _ => rfl).bind
  intro _
  apply (heeds_filter id).bind
  intro f
  split
  · exact heeds_runCode minds _ _
  · exact (heeds_store.bind fun _ => heeds_pure _).bind fun _ => heeds_admitCodec _ _ _ _
  · exact heeds_modifySession _ _
  · exact heeds_modifySession _ _
  · exact heeds_modifySession _ _
  · exact heeds_pure ()

theorem heeds_notify {other : FutureId} (differs : other ≠ future) (listener : CodeId) :
    Heeds R (notify perform other listener) := by
  apply Heeds.bind
  · exact heeds_idle fun w => ⟨(),_,rfl,.record w (if_neg differs)⟩
  · exact fun _ => heeds_runCode minds _ _

theorem heeds_complete (other : FutureId) (outcome : Outcome) :
    Heeds R (complete perform other outcome) := by
  by_cases same : other = future
  · rw [same]
    exact minds.completes outcome
  have tells (listeners : List CodeId) : Heeds R (runListeners perform other listeners) := by
    induction listeners with
    | nil => exact heeds_pure ()
    | cons listener rest ih => exact (heeds_notify minds same listener).bind fun _ => ih
  apply heeds_store.bind
  intro s
  dsimp only
  split
  · exact heeds_pure _
  · apply Heeds.bind
    · exact heeds_idle fun w => ⟨(),_,rfl,.modify w (.inl same) _⟩
    · exact fun _ => (tells _).bind fun _ => heeds_pure _

theorem heeds_listen (other : FutureId) (listener : CodeId) :
    Heeds R (listen perform other listener) := by
  by_cases same : other = future
  · rw [same]
    exact minds.listens listener
  apply heeds_store.bind
  intro s
  split
  · exact heeds_notify minds same listener
  · exact heeds_idle fun w => ⟨(),_,rfl,.modify w (.inl same) _⟩

theorem heeds_completeRequest (id : RequestId) (outcome : Outcome) :
    Heeds R (completeRequest perform id outcome) := by
  apply (heeds_request id).bind
  intro r
  split
  · exact (heeds_complete minds _ _).bind fun _ => heeds_pure ()
  · exact heeds_pure ()

theorem heeds_failPending (r : SessionRef) (dropped : Nat) :
    Heeds R (failPending perform r dropped) := by
  apply (heeds_pollQueue r).bind
  intro polled
  split
  · apply (heeds_sessionId r).bind
    intro _
    apply (heeds_completeRequest minds _ _).bind
    intro _
    apply (minds.performs (.failPending r _)).bind
    intro reply
    split <;> exact heeds_pure _
  · exact (heeds_observe fun _ => rfl).bind fun _ => heeds_pure _

theorem heeds_callHandler (r : SessionRef) (event : Event) :
    Heeds R (callHandler perform r event) := by
  apply heeds_store.bind
  intro s
  apply (heeds_session r).bind
  intro _
  split
  · exact heeds_pure ()
  · exact heeds_runCode minds _ _

theorem heeds_flush (processor : ProcessorId) (r : SessionRef) :
    Heeds R (flush perform processor r) := by
  apply heeds_store.bind
  intro s
  split
  · exact heeds_perform minds (.drain processor r)
  · exact heeds_runCode minds _ _

theorem heeds_removeSession (processor : ProcessorId) (r : SessionRef) :
    Heeds R (removeSession perform processor r) := by
  apply heeds_store.bind
  intro s
  split
  · apply (heeds_session r).bind
    intro _
    split
    · exact heeds_perform minds (.fire r .sessionClosed)
    · exact heeds_pure ()
  · exact heeds_runCode minds _ _

theorem heeds_terminate (r : SessionRef) (event : Event) :
    Heeds R (terminate perform r event) := by
  have handled := heeds_callHandler minds r event
  unfold terminate
  split
  · exact (heeds_enterOpened r).bind fun _ => handled
  · apply Heeds.bind
    · exact (heeds_modifySession r _).bind fun _ => (heeds_failPending minds r 0).bind fun _ =>
        (heeds_sessionId r).bind fun _ => heeds_log _ _ _
    · exact fun _ => handled
  · exact (heeds_modifySession r _).bind fun _ => handled
  · exact (heeds_modifySession r _).bind fun _ => handled
  · exact (heeds_modifySession r _).bind fun _ => (heeds_session r).bind fun _ => heeds_flush minds _ r
  · exact (heeds_session r).bind fun _ => heeds_removeSession minds _ r
  · exact handled

theorem heeds_forward (handle : Handle) (r : SessionRef) (event : Event) :
    Heeds R (forward perform handle r event) := by
  apply (heeds_chain _).bind
  intro c
  split
  · apply Heeds.bind
    · apply heeds_observe
      intro id
      unfold passing
      dsimp only
      split <;> rfl
    intro _
    unfold beyond
    dsimp only
    split
    · exact heeds_terminate minds r event
    · split
      · exact heeds_perform minds _
      · exact heeds_pure ()
  · exact heeds_logChain _ _ _

theorem heeds_fire (r : SessionRef) (event : Event) : Heeds R (fire perform r event) :=
  heeds_forward minds _ r event

theorem heeds_drain (processor : ProcessorId) (r : SessionRef) :
    Heeds R (drain perform processor r) := by
  apply (heeds_pollQueue r).bind
  intro polled
  split
  · apply Heeds.bind
    · exact heeds_modifyStore (fun _ => rfl) fun _ => rfl
    · exact fun _ => (heeds_completeRequest minds _ _).bind fun _ => (heeds_fire minds r _).bind
        fun _ => heeds_perform minds (.drain processor r)
  · exact heeds_pure ()

theorem heeds_write (r : SessionRef) (message : Message) : Heeds R (write perform r message) := by
  apply heeds_newFuture.bind
  intro future
  apply (heeds_session r).bind
  intro s
  split
  · exact (heeds_log _ _ _).bind fun _ => (heeds_complete minds _ _).bind fun _ => heeds_pure _
  · exact (heeds_newRequest _).bind fun _ => (heeds_fire minds r _).bind fun _ => heeds_pure _

theorem heeds_close (r : SessionRef) : Heeds R (close perform r) := by
  apply (heeds_session r).bind
  intro s
  split
  · exact heeds_pure ()
  · exact (heeds_log _ _ _).bind fun _ => (heeds_modifySession r _).bind
      fun _ => (heeds_observe fun _ => rfl).bind fun _ => heeds_fire minds r _

theorem heeds_deliver (id : FilterId) (handle : Handle) (r : SessionRef) (event : Event) :
    Heeds R (deliver perform id handle r event) :=
  heeds_react (heeds_forward minds handle r) (fun code => heeds_runCode minds code _) id r event

theorem heeds_admitEntry (r : SessionRef) (position : Position) (name : String) (filter : FilterId) :
    Heeds R (admitEntry perform r position name filter) := by
  apply (heeds_chain r).bind
  intro c
  apply (heeds_ofExcept _).bind
  intro _
  apply (heeds_allocateEntry r name filter).bind
  intro handle
  apply (heeds_runHook minds filter .preAdd name handle).attempt.bind
  intro asked
  split
  · exact (heeds_edit r _ fun _ => rfl).bind fun _ => heeds_fail _
  · apply (heeds_chain r).bind
    intro c
    split
    · exact (heeds_edit r _ fun _ => rfl).bind fun _ => heeds_fail _
    · exact (heeds_edit r _ fun _ => rfl).bind fun _ => heeds_pure _

theorem heeds_confirmEntry (r : SessionRef) (name : String) (filter : FilterId) (handle : Handle) :
    Heeds R (confirmEntry perform r name filter handle) := by
  have rolled (failure : Failure) (text : String) : Heeds R (do
      logChain r .debug text
      fail failure : Effect σ Unit) := (heeds_logChain r .debug text).bind fun _ => heeds_fail failure
  apply (heeds_runHook minds filter .postAdd name handle).attempt.bind
  intro told
  split
  · apply (heeds_chain r).bind
    intro c
    dsimp only
    split
    · exact (heeds_edit r _ fun _ => rfl).bind fun _ => rolled _ _
    · exact rolled _ _
  · exact heeds_pure ()

theorem heeds_add (r : SessionRef) (position : Position) (name : String) (filter : Option FilterId) :
    Heeds R (add perform r position name filter) :=
  (heeds_needFilter name filter).bind fun _ => (heeds_admitEntry minds _ _ _ _).bind
    fun _ => heeds_store.bind fun _ => (heeds_logChain _ _ _).bind
    fun _ => heeds_confirmEntry minds _ _ _ _

theorem heeds_addAll (r : SessionRef) (entries : List (String × FilterId)) :
    Heeds R (addAll perform r entries) := by
  induction entries with
  | nil => exact heeds_pure ()
  | cons entry rest ih => exact (heeds_add minds r _ _ _).bind fun _ => ih

theorem heeds_removeEntry (r : SessionRef) (id : EntryId) :
    Heeds R (removeEntry perform r id) := by
  apply (heeds_chain r).bind
  intro c
  dsimp only
  split
  · exact heeds_pure _
  · rename_i filter _
    have leaves : Heeds R (do
        if (← chain r).isCurrent (c.handle r id) then
          dropEntry r (c.handle r id) (c.slot id).name
          logChain r .debug ("removed " ++ (c.slot id).name)
          runHook perform filter .postRemove (c.slot id).name (c.handle r id)
        return some filter) := by
      apply (heeds_chain r).bind
      intro _
      dsimp only
      split
      · exact (heeds_edit r _ fun _ => rfl).bind fun _ => (heeds_logChain _ _ _).bind
          fun _ => (heeds_runHook minds _ _ _ _).bind fun _ => heeds_pure _
      · exact heeds_pure _
    apply (heeds_runHook minds filter _ _ _).attempt.bind
    intro asked
    cases asked with
    | error failure => exact (heeds_fail _).bind fun _ => leaves
    | ok => exact leaves

theorem heeds_remove (r : SessionRef) (name : String) : Heeds R (remove perform r name) := by
  apply (heeds_chain r).bind
  intro c
  split
  · exact heeds_removeEntry minds r _
  · exact heeds_fail _

theorem heeds_removeFilter (r : SessionRef) (filter : Option FilterId) :
    Heeds R (removeFilter perform r filter) := by
  apply (heeds_chain r).bind
  intro c
  split
  · exact (heeds_removeEntry minds r _).bind fun _ => heeds_pure _
  · exact heeds_store.bind fun _ => heeds_fail _

theorem heeds_clear (r : SessionRef) : Heeds R (clear perform r) := by
  apply (heeds_chain r).bind
  intro c
  split
  · split
    · exact heeds_pure ()
    · exact (heeds_removeEntry minds r _).bind fun _ => heeds_perform minds (.clear r)
  · exact heeds_pure ()

theorem heeds_exchange (r : SessionRef) (name : String) (filter : FilterId) (handle : Handle) :
    Heeds R (exchange perform r name filter handle) := by
  apply (heeds_chain r).bind
  intro c
  dsimp only
  split
  · exact heeds_fail _
  · split
    · exact heeds_pure _
    · apply (heeds_modifyChain r _).bind
      intro _
      apply heeds_store.bind
      intro _
      apply (heeds_logChain _ _ _).bind
      intro _
      apply (heeds_runHook minds filter _ _ _).attempt.bind
      intro told
      split
      · apply (heeds_chain r).bind
        intro _
        split
        · exact (heeds_modifyChain r _).bind fun _ => heeds_fail _
        · exact heeds_fail _
      · exact heeds_pure _

theorem heeds_replace (r : SessionRef) (name : String) (filter : Option FilterId) :
    Heeds R (replace perform r name filter) := by
  apply (heeds_needFilter name filter).bind
  intro id
  apply (heeds_chain r).bind
  intro c
  apply (heeds_ofExcept _).bind
  intro handle
  apply (heeds_runHook minds id _ _ _).attempt.bind
  intro asked
  cases asked with
  | error failure => exact (heeds_fail _).bind fun _ => heeds_exchange minds r name id handle
  | ok => exact heeds_exchange minds r name id handle

theorem heeds_validateWith (factory : Factory) (config : Json) :
    Heeds R (validateWith perform factory config) := by
  unfold validateWith
  split
  · exact heeds_pure _
  · exact heeds_pure _
  · exact heeds_pure _
  · apply (minds.performs _).bind
    intro reply
    split <;> exact heeds_pure _

theorem heeds_createWith (factory : Factory) (config : Json) :
    Heeds R (createWith perform factory config) := by
  unfold createWith
  split
  · exact (heeds_makeFilter _).bind fun _ => heeds_pure _
  · exact (heeds_ofExcept _).bind fun _ => (heeds_makeFilter _).bind
      fun _ => (heeds_ofExcept _).bind fun _ => (heeds_modifyFilter _ _).bind fun _ => heeds_pure _
  · exact (heeds_ofExcept _).bind fun _ => (heeds_makeFilter _).bind fun _ => heeds_pure _
  · apply (minds.performs _).bind
    intro reply
    split <;> exact heeds_pure _

theorem heeds_createValid (type : String) (factory : Factory) (config : Json) :
    Heeds R (createValid perform type factory config) := by
  apply (heeds_createWith minds factory config).attempt.bind
  intro made
  split
  · split
    · exact (heeds_log _ _ _).bind fun _ => heeds_fail _
    · exact heeds_fail _
  · exact heeds_fail _
  · exact (heeds_log _ _ _).bind fun _ => heeds_pure _

theorem heeds_createFilter (type : String) (config : Json) :
    Heeds R (createFilter perform type config) := by
  apply heeds_store.bind
  intro s
  split
  · exact (heeds_log _ _ _).bind fun _ => heeds_fail _
  · apply (heeds_validateWith minds _ _).bind
    intro valid
    dsimp only
    split
    · exact (heeds_log _ _ _).bind fun _ => (heeds_fail _).bind
        fun _ => heeds_createValid minds _ _ _
    · exact heeds_createValid minds _ _ _

theorem heeds_configure (config : SessionConfig) : Heeds R (configure perform config) := by
  have adds (t : Template) (filters : List FilterConfig) :
      Heeds R (addConfigured perform t filters) := by
    induction filters generalizing t with
    | nil => exact heeds_pure t
    | cons f rest ih =>
      unfold addConfigured
      split
      · exact (heeds_log _ _ _).bind fun _ => ih t
      · exact (heeds_createFilter minds _ _).bind fun _ => (heeds_ofExcept _).bind fun t => ih t
  exact heeds_openFactories.bind fun _ => (heeds_ofExcept _).bind fun _ => (adds _ _).bind
    fun _ => heeds_store.bind fun _ => (heeds_log _ _ _).bind fun _ => heeds_pure _

theorem heeds_ofCall (c : Call) : Heeds R (ofCall perform c) := by
  have answers {α : Type} {m : Effect σ α} (heeds : Heeds R m) (reply : α → Reply) :
      Heeds R (do return reply (← m)) := heeds.bind fun _ => heeds_pure _
  have changes {change : Store → Store} (reply : Reply)
      (futures : ∀ s, (change s).futures = s.futures)
      (journal : ∀ s, (change s).journal = s.journal) :
      Heeds R (do modifyStore change; return reply : Effect σ Reply) :=
    (heeds_modifyStore futures journal).bind fun _ => heeds_pure reply
  cases c with
  | note note => exact answers (heeds_observe fun _ => rfl) _
  | print stderr line => exact answers (heeds_observe fun _ => rfl) _
  | newFilter filter => exact answers (heeds_makeFilter filter) _
  | newHandler handler => exact heeds_store.bind fun _ => changes _ (fun _ => rfl) fun _ => rfl
  | newProcessor processor => exact heeds_store.bind fun _ => changes _ (fun _ => rfl) fun _ => rfl
  | newSession handler processor capacity allocation => exact answers (heeds_newSession _ _ _ _) _
  | add r position name filter => exact answers (heeds_add minds _ _ _ _) _
  | remove r name => exact answers (heeds_remove minds _ _) _
  | removeFilter r filter => exact answers (heeds_removeFilter minds _ _) _
  | replace r name filter => exact answers (heeds_replace minds _ _ _) _
  | clear r => exact answers (heeds_clear minds r) _
  | addAll r entries => exact answers (heeds_addAll minds _ _) _
  | fire r event => exact answers (heeds_fire minds _ _) _
  | forward handle r event => exact answers (heeds_forward minds _ _ _) _
  | write r message => exact answers (heeds_write minds _ _) _
  | close r => exact answers (heeds_close minds r) _
  | setAttribute r key value => exact answers (heeds_modifySession r _) _
  | removeAttribute r key =>
    exact (heeds_session r).bind fun _ => answers (heeds_modifySession r _) _
  | pollQueue r => exact answers (heeds_handOver r) _
  | flush processor r => exact answers (heeds_flush minds _ _) _
  | removeSession processor r => exact answers (heeds_removeSession minds _ _) _
  | newFuture => exact answers heeds_newFuture _
  | complete future outcome => exact answers (heeds_complete minds _ _) _
  | listen future listener => exact answers (heeds_listen minds _ _) _
  | newRequest message future => exact answers (heeds_newRequest _) _
  | wrapRequest inner message => exact answers (heeds_wrapRequest _ _) _
  | setLevel filter event level => exact answers (heeds_modifyFilter filter _) _
  | setAllLevels filter level => exact answers (heeds_modifyFilter filter _) _
  | setGlobalLevel level => exact changes _ (fun _ => rfl) fun _ => rfl
  | log logger level text => exact answers (heeds_log _ _ _) _
  | openFactories => exact answers heeds_openFactories _
  | registerBuiltIn => exact heeds_openFactories.bind fun _ => answers (heeds_registerAll _) _
  | register name factory => exact heeds_openFactories.bind fun _ => answers (heeds_register _ _) _
  | unregister name => exact heeds_openFactories.bind fun _ => answers (heeds_unregister _) _
  | createFilter type config =>
    exact heeds_openFactories.bind fun _ => answers (heeds_createFilter minds _ _) _
  | validateWith factory config => exact answers (heeds_validateWith minds _ _) _
  | createWith factory config => exact answers (heeds_createWith minds _ _) _
  | configure config => exact answers (heeds_configure minds config) _
  | loadConfig path content => exact answers (heeds_loadConfig _ _) _

theorem heeds_ofScript (script : Script σ) : Heeds R (ofScript perform script) :=
  heeds_interpret (fun c => (heeds_needSessions _).bind fun _ => heeds_ofCall minds c) script

theorem heeds_ofTask (task : Task) : Heeds R (ofTask perform task) := by
  have answers {m : Effect σ Unit} (heeds : Heeds R m) : Heeds R (do m; return Reply.unit) :=
    heeds.bind fun _ => heeds_pure _
  cases task with
  | run code how =>
    apply (heeds_read _ fun _ => rfl).bind
    intro w
    split
    · exact heeds_ofScript minds _
    · exact heeds_pure _
  | deliver filter handle r event => exact answers (heeds_deliver minds _ _ _ _)
  | fire r event => exact answers (heeds_fire minds _ _)
  | drain processor r => exact answers (heeds_drain minds _ _)
  | clear r => exact answers (heeds_clear minds r)
  | failPending r dropped => exact (heeds_failPending minds r dropped).bind fun _ => heeds_pure _

end Performing

/-- What completing the future and listening to it have, if the tasks within them do, every task has. -/
theorem performWith_minds
    (completes : ∀ fuel, (∀ task, Heeds R (performWith fuel task)) → ∀ outcome,
      Heeds R (complete (performWith fuel) future outcome))
    (listens : ∀ fuel, (∀ task, Heeds R (performWith fuel task)) → ∀ listener,
      Heeds R (listen (performWith fuel) future listener)) (fuel : Nat) :
    Minds future R (performWith fuel) := by
  have performs (fuel : Nat) (task : Task) : Heeds R (performWith fuel task) := by
    induction fuel generalizing task with
    | zero => exact Lasting.outOfFuel
    | succ fuel ih => exact heeds_ofTask ⟨ih,completes fuel ih,listens fuel ih⟩ task
  exact ⟨performs fuel,completes fuel (performs fuel),listens fuel (performs fuel)⟩

end Effect
end SessionPipeline
