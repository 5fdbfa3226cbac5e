import SessionPipeline.Proofs.Effect.Evolution

/-! What sessions, futures, hooks and factories do keeps every relation between worlds that quiet
steps keep, if the tasks within it do. -/
namespace SessionPipeline

theorem Filter.isKind_logging {f : Filter} : f.isKind .logging = true ↔ ∃ settings, f = .logging settings := by
  cases f <;> simp [isKind]

namespace Effect

open World

variable {σ : Type} {R : Contract σ} [Discreet R]

theorem keeping_store : Keeping R (store : Effect σ Store) := fun w => Discreet.refl w

theorem keeping_session (ref : SessionRef) : Keeping R (session ref : Effect σ Session) :=
  fun w => Discreet.refl w

theorem keeping_sessionId (ref : SessionRef) : Keeping R (sessionId ref : Effect σ Nat) :=
  fun w => Discreet.refl w

theorem keeping_chain (ref : SessionRef) : Keeping R (chain ref : Effect σ Chain) :=
  fun w => Discreet.refl w

theorem keeping_observe {o : Observation} (silent : o.silent = true) :
    Keeping R (observe o : Effect σ Unit) :=
  keeping_of_quiet fun w => ⟨(),_,observe_apply o w,.told w o silent,fun _ _ => rfl⟩

theorem keeping_logBytes (logger : String) (level : Logging.Level) (text : Bytes)
    (context : Logging.Context) : Keeping R (logBytes logger level text context : Effect σ Unit) :=
  keeping_of_quiet fun w => ⟨(),_,logBytes_apply logger level text context w,.logged ..,fun _ _ => rfl⟩

theorem keeping_log (logger : String) (level : Logging.Level) (text : String) :
    Keeping R (log logger level text : Effect σ Unit) := keeping_logBytes logger level _ _

theorem logChain_apply (ref : SessionRef) (level : Logging.Level) (text : String) (w : World σ) :
    logChain ref level text w = .ok () (w.logged chainLogger level
      (Bytes.ofString ("session " ++ toString (w.store.session ref).id ++ ": " ++ text))) := rfl

theorem keeping_logChain (ref : SessionRef) (level : Logging.Level) (text : String) :
    Keeping R (logChain ref level text : Effect σ Unit) :=
  (keeping_sessionId ref).bind fun _ => keeping_log _ _ _

/-- A failure that is logged before it comes out. -/
theorem keeping_logFail {α : Type} (ref : SessionRef) (level : Logging.Level) (text : String)
    (failure : Failure) : Keeping R (do
      logChain ref level text
      fail failure : Effect σ α) :=
  (keeping_logChain ref level text).bind fun _ => keeping_fail failure

theorem keeping_newFilter (f : Filter) : Keeping R (newFilter f : Effect σ FilterId) :=
  keeping_of_quiet fun w => ⟨_,_,rfl,.filter w f,fun _ _ => rfl⟩

theorem newRequest_apply (r : WriteRequest) (w : World σ) : newRequest r w =
    .ok w.store.requests.size (w.mapStore fun s => { s with requests := s.requests.push r }) := rfl

theorem newRequest_keeps {r : WriteRequest} {w : World σ}
    (known : ∀ ref, R.terms.listed ref → ∀ future, r.future = some future →
      future < w.store.futures.size ∨ ∃ other, (w.store.request other).future = some future) :
    Meets R w (newRequest r) w :=
  (meets_of_ok (newRequest_apply r w)).mpr (Discreet.quiet (.request w r known) fun _ _ => rfl)

theorem keeping_newFuture : Keeping R (newFuture : Effect σ FutureId) :=
  keeping_of_quiet fun w => ⟨_,_,rfl,.future w,fun _ _ => rfl⟩

theorem keeping_setAttribute (ref : SessionRef) {key : AttributeKey} (value : Message)
    (others : R.terms.tidy → ∀ codec, key ≠ .pending codec) (plain : ∀ f, key ≠ .entryName f) :
    Keeping R (modifySession ref fun s => s.setAttribute key value : Effect σ Unit) :=
  keeping_of_quiet fun w => ⟨(),_,rfl,.attributed w ref key value others,
    sameNames_mapSession w ref _ fun s f => s.attribute?_setAttribute_of_ne (plain f).symm value⟩

theorem keeping_removeAttribute (ref : SessionRef) {key : AttributeKey} (plain : ∀ f, key ≠ .entryName f) :
    Keeping R (modifySession ref fun s => s.removeAttribute key : Effect σ Unit) :=
  keeping_of_quiet fun w => ⟨(),_,rfl,.unattributed w ref key,
    sameNames_mapSession w ref _ fun s f => s.attribute?_removeAttribute_of_ne (plain f).symm⟩

theorem keeping_discardPending (codec : FilterId) (ref : SessionRef) :
    Keeping R (discardPending codec ref : Effect σ Unit) := keeping_removeAttribute _ fun _ => nofun

theorem keeping_settings (id : FilterId) (change : LogSettings → LogSettings) :
    Keeping R (modifyFilter id (Filter.mapSettings change) : Effect σ Unit) :=
  keeping_of_quiet fun w => ⟨(),_,rfl,.settings w id change,fun _ _ => rfl⟩

theorem keeping_needFilter (name : String) (filter? : Option FilterId) :
    Keeping R (needFilter name filter? : Effect σ FilterId) := by
  cases filter? with
  | none => exact keeping_fail _
  | some id => exact keeping_pure id

theorem keeping_vetoed {α : Type} (veto : String → Failure) (failure : Failure) :
    Keeping R (vetoed veto failure : Effect σ α) := keeping_fail _

theorem keeping_codecsOf (ref : SessionRef) :
    Keeping R (codecsOf ref : Effect σ (List (String × FilterId))) :=
  keeping_store.bind fun _ => keeping_pure _

theorem keeping_admitCodec (codec : FilterId) (name : String) (ref : SessionRef)
    (others : List (String × FilterId)) :
    Keeping R (admitCodec codec name ref others : Effect σ Unit) := by
  induction others with
  | nil => exact keeping_pure ()
  | cons other rest ih =>
    obtain ⟨entry,id⟩ := other
    have rest : Keeping R (do
        if id != codec then discardPending id ref
        admitCodec codec name ref rest : Effect σ Unit) := by
      dsimp only
      split
      · exact (keeping_discardPending id ref).bind fun _ => ih
      · exact ih
    unfold admitCodec
    dsimp only
    split
    · exact (keeping_fail _).bind fun _ => rest
    · exact rest

theorem pollQueue_none {ref : SessionRef} {w : World σ}
    (found : (w.store.session ref).queue.poll = none) : pollQueue ref w = .ok none w := by
  unfold pollQueue
  rw [bind_of_ok (session_apply ref w),found]
  rfl

theorem pollQueue_some {ref : SessionRef} {w : World σ} {id : RequestId} {queue : Ring RequestId}
    (found : (w.store.session ref).queue.poll = some (id,queue)) :
    pollQueue ref w = .ok (some id) (w.dequeue ref id queue) := by
  unfold pollQueue
  rw [bind_of_ok (session_apply ref w),found]
  rfl

theorem keeping_handOver {ref : SessionRef} (unsealed : ¬ R.terms.sealed ref) :
    Keeping R (handOver ref : Effect σ (Option RequestId)) := keeping_of_ok fun w => by
  unfold handOver
  cases found : (w.store.session ref).queue.poll with
  | none =>
    rw [bind_of_ok (pollQueue_none found)]
    exact ⟨none,w,rfl,Discreet.refl w⟩
  | some pair =>
    rw [bind_of_ok (pollQueue_some found)]
    exact ⟨_,_,rfl,Discreet.quiet (.polled w ref found unsealed) (sameNames_mapSession w ref _ fun _ _ => rfl)⟩

theorem keeping_newSession (handler : Option HandlerId) (processor : Option ProcessorId)
    (capacity : UInt64) (allocation : Allocation) :
    Keeping R (newSession handler processor capacity allocation : Effect σ SessionRef) := by
  intro w
  unfold newSession
  rw [meets_bind_of_ok (store_apply w),meets_bind_of_ok (modifyStore_apply _ w)]
  refine Keeping.from ?_ (Discreet.quiet (.numbered w) fun _ _ => rfl)
  refine keeping_ofExcept_bind fun queue created => ?_
  split
  · exact keeping_fail _
  · exact keeping_fail _
  · refine keeping_store.bind fun s => Keeping.bind ?_ fun _ =>
      (keeping_log _ _ _).bind fun _ => keeping_pure _
    exact keeping_of_quiet fun w => ⟨(),_,rfl,.session w _ _ _ created,sameNames_begin w rfl⟩

theorem keeping_makeFilter (f : Filter) : Keeping R (makeFilter f : Effect σ FilterId) := by
  unfold makeFilter
  split
  · rename_i settings
    refine Keeping.bind ?_ fun _ => keeping_newFilter _
    exact keeping_of_quiet fun w => ⟨(),_,rfl,.loggers w fun r => (r.obtain (Bytes.ofString settings.logger)).2,fun _ _ => rfl⟩
  · exact (keeping_pure ()).bind fun _ => keeping_newFilter _

theorem keeping_register (name : String) (factory : Option Factory) :
    Keeping R (register name factory : Effect σ Bool) := by
  unfold register
  split
  · exact (keeping_log _ _ _).bind fun _ => keeping_pure _
  · refine keeping_store.bind fun s => ?_
    dsimp only
    split
    · exact (keeping_log _ _ _).bind fun _ => keeping_pure _
    · refine Keeping.bind ?_ fun _ => (keeping_log _ _ _).bind fun _ => keeping_pure _
      exact keeping_of_quiet fun w => ⟨(),_,rfl,.factories w _,fun _ _ => rfl⟩

theorem keeping_registerAll (factories : List (String × Factory)) :
    Keeping R (registerAll factories : Effect σ Unit) := by
  induction factories with
  | nil => exact keeping_pure ()
  | cons factory rest ih => exact (keeping_register _ _).bind fun _ => ih

theorem keeping_openFactories : Keeping R (openFactories : Effect σ Unit) := by
  refine keeping_store.bind fun s => ?_
  split
  · exact keeping_registerAll _
  · exact keeping_pure ()

theorem keeping_unregister (name : String) : Keeping R (unregister name : Effect σ Bool) := by
  refine keeping_store.bind fun s => Keeping.bind ?_ fun _ => keeping_pure _
  exact keeping_of_quiet fun w => ⟨(),_,rfl,.factories w _,fun _ _ => rfl⟩

theorem keeping_setGlobalLevel (level : Logging.Level) :
    Keeping R (setGlobalLevel level : Effect σ Unit) :=
  keeping_of_quiet fun w => ⟨(),_,rfl,.loggers w (·.setGlobalLevel level),fun _ _ => rfl⟩

theorem keeping_loadConfig (path : String) (content : Option String) :
    Keeping R (loadConfig path content : Effect σ SessionConfig) := by
  unfold loadConfig
  split
  · exact keeping_fail _
  · split
    · exact keeping_fail _
    · exact (keeping_ofExcept _).bind fun _ => (keeping_ofExcept _).bind fun _ =>
        (keeping_log _ _ _).bind fun _ => keeping_pure _

theorem wrapRequest_apply (inner : RequestId) (message : Message) (w : World σ) :
    wrapRequest inner message w = .ok w.store.requests.size (w.mapStore fun s => { s with
      requests := s.requests.push
        { message := message, future := (w.store.request inner).future, inner := some inner } }) := rfl

theorem keeping_wrapRequest (inner : RequestId) (message : Message) :
    Keeping R (wrapRequest inner message : Effect σ RequestId) := fun _ =>
  newRequest_keeps fun _ _ _ shared => .inr ⟨inner,shared⟩

section Performing

variable {perform : Perform σ}

theorem keeping_runCode {code : CodeId} {how : Invocation}
    (runs : Keeping R (perform (.run code how))) : Keeping R (runCode perform code how) :=
  runs.bind fun _ => keeping_pure ()

/-- A hook that names no entry on the session. -/
theorem runHook_keeps {hook : Hook} {name : String} {handle : Handle}
    (runs : ∀ code, Keeping R (perform (.run code (.hook hook name handle)))) {id : FilterId} {w : World σ}
    (nameless : (w.store.filter id).isKind .logging = true → hook ≠ .postAdd ∧ hook ≠ .postRemove) :
    Meets R w (runHook perform id hook name handle) w := by
  unfold runHook
  rw [meets_bind_of_ok (observe_apply _ w),meets_bind_of_ok (filter_apply id _)]
  refine Keeping.from ?_ (Discreet.quiet (.told w (.hooked id hook name handle) rfl) fun _ _ => rfl)
  rw [filter_record]
  split
  · exact keeping_runCode (runs _)
  · exact (keeping_codecsOf _).bind fun others => keeping_admitCodec _ _ _ others
  · exact keeping_discardPending _ _
  · rename_i kind
    exact absurd rfl (nameless (by rw [kind]; rfl)).1
  · rename_i kind
    exact absurd rfl (nameless (by rw [kind]; rfl)).2
  · exact keeping_pure ()

omit [Discreet R] in
theorem runHook_before_logging {id : FilterId} {w : World σ}
    (logs : (w.store.filter id).isKind .logging = true) {hook : Hook} (before : hook = .preAdd ∨ hook = .preRemove)
    (name : String) (handle : Handle) :
    runHook perform id hook name handle w = .ok () (w.record (.hooked id hook name handle)) := by
  obtain ⟨settings,kind⟩ := Filter.isKind_logging.mp logs
  unfold runHook
  rw [bind_of_ok (observe_apply _ w),bind_of_ok (filter_apply id _),filter_record,kind]
  rcases before with rfl | rfl <;> rfl

omit [Discreet R] in
theorem runHook_postAdd_logging {id : FilterId} {w : World σ}
    (logs : (w.store.filter id).isKind .logging = true) (name : String) (handle : Handle) :
    runHook perform id .postAdd name handle w =
      .ok () ((w.record (.hooked id .postAdd name handle)).mapSession handle.owner
        (·.setAttribute (.entryName id) (.ofString name))) := by
  obtain ⟨settings,kind⟩ := Filter.isKind_logging.mp logs
  unfold runHook
  rw [bind_of_ok (observe_apply _ w),bind_of_ok (filter_apply id _),filter_record,kind]
  rfl

omit [Discreet R] in
theorem runHook_postRemove_logging {id : FilterId} {w : World σ}
    (logs : (w.store.filter id).isKind .logging = true) (name : String) (handle : Handle) :
    runHook perform id .postRemove name handle w =
      .ok () ((w.record (.hooked id .postRemove name handle)).mapSession handle.owner
        (·.removeAttribute (.entryName id))) := by
  obtain ⟨settings,kind⟩ := Filter.isKind_logging.mp logs
  unfold runHook
  rw [bind_of_ok (observe_apply _ w),bind_of_ok (filter_apply id _),filter_record,kind]
  rfl

omit [Discreet R] in
theorem keeping_runHook [Lawful R] {hook : Hook} {name : String} {handle : Handle}
    (runs : ∀ code, Keeping R (perform (.run code (.hook hook name handle)))) (id : FilterId) :
    Keeping R (runHook perform id hook name handle) := by
  intro w
  have told := Lawful.quiet (R := R) (.told w (.hooked id hook name handle) rfl)
  cases logs : (w.store.filter id).isKind .logging with
  | true =>
    cases hook with
    | postAdd =>
      refine (meets_of_ok (runHook_postAdd_logging logs name handle)).mpr (Lawful.trans told ?_)
      exact Lawful.quiet (.attributed _ handle.owner _ _ fun _ _ => nofun)
    | postRemove =>
      refine (meets_of_ok (runHook_postRemove_logging logs name handle)).mpr (Lawful.trans told ?_)
      exact Lawful.quiet (.unattributed _ handle.owner _)
    | _ => exact runHook_keeps runs fun _ => ⟨nofun,nofun⟩
  | false => exact runHook_keeps runs fun also' => absurd (logs.symm.trans also') Bool.false_ne_true

theorem keeping_notify {future : FutureId} {listener : CodeId}
    (runs : Keeping R (perform (.run listener (.completed future)))) :
    Keeping R (notify perform future listener) :=
  (keeping_observe rfl).bind fun _ => keeping_runCode runs

theorem keeping_runListeners {future : FutureId} {listeners : List CodeId}
    (runs : ∀ listener ∈ listeners, Keeping R (perform (.run listener (.completed future)))) :
    Keeping R (runListeners perform future listeners) := by
  induction listeners with
  | nil => exact keeping_pure ()
  | cons listener rest ih =>
    have first := runs listener List.mem_cons_self
    have later := ih fun other member => runs other (List.mem_cons_of_mem _ member)
    exact (keeping_notify first).bind fun _ => later

theorem complete_done {w : World σ} {future : FutureId} (done : (w.store.future future).isDone = true)
    (outcome : Outcome) : complete perform future outcome w = .ok false w := by
  unfold complete
  rw [bind_of_ok (store_apply w),if_pos done]
  rfl

theorem complete_waiting {w : World σ} {future : FutureId}
    (waiting : (w.store.future future).isDone = false) (outcome : Outcome) :
    complete perform future outcome w = (do
      runListeners perform future (w.store.future future).listeners
      return true : Effect σ Bool) (w.decide future outcome) := by
  unfold complete
  rw [bind_of_ok (store_apply w),if_neg (Bool.eq_false_iff.mp waiting),
    bind_of_ok (modifyStore_apply _ w)]
  rfl

/-- Those who listen in a world keep the contract from there on. -/
def Tells (R : Contract σ) (perform : Perform σ) : Prop :=
  ∀ (w w' : World σ) (future : FutureId), R.ended w w' →
  Meets R w (runListeners perform future (w.store.future future).listeners) w'

theorem tells_of_runs (runs : ∀ code how, Keeping R (perform (.run code how))) : Tells R perform :=
  fun _ _ _ before => (keeping_runListeners fun _ _ => runs _ _).from before

theorem keeping_complete (tells : Tells R perform) (future : FutureId) (outcome : Outcome) :
    Keeping R (complete perform future outcome) := by
  intro w
  cases waiting : (w.store.future future).isDone with
  | true => exact (meets_of_ok (complete_done waiting outcome)).mpr (Discreet.refl w)
  | false =>
    have decided : R.ended w _ := Discreet.quiet (.decided w future outcome waiting) fun _ _ => rfl
    unfold Meets ends
    rw [complete_waiting waiting]
    exact (tells w _ future decided).bind fun _ _ told => (keeping_pure true).from told

/-- Completing a request that has left the queue decides it before anybody is told. -/
theorem completeRequest_keeps (tells : Tells R perform) {w w₁ : World σ} {id : RequestId}
    {outcome : Outcome} (settled : R.ended w (w₁.settle id outcome))
    (futures : w₁.store.futures = w.store.futures) :
    Meets R w (completeRequest perform id outcome) w₁ := by
  unfold completeRequest
  rw [meets_bind_of_ok (request_apply id w₁)]
  unfold settle at settled
  cases has : (w₁.store.request id).future with
  | none =>
    rw [has] at settled
    exact settled
  | some future =>
    rw [has] at settled
    dsimp only at settled ⊢
    cases waiting : (w₁.store.future future).isDone with
    | true =>
      rw [waiting,if_pos rfl] at settled
      rw [meets_bind_of_ok (complete_done waiting outcome)]
      exact settled
    | false =>
      rw [waiting,if_neg Bool.false_ne_true] at settled
      have told := tells w _ future settled
      have same : w₁.store.future future = w.store.future future := by rw [Store.future,futures]; rfl
      unfold Meets ends
      rw [bind_apply,complete_waiting waiting,← bind_apply,same]
      exact (told.bind fun _ _ later => (keeping_pure true).from later).bind
        fun _ _ later => (keeping_pure ()).from later

theorem keeping_failPending (tells : Tells R perform) {ref : SessionRef}
    (goesOn : ∀ dropped, Keeping R (perform (.failPending ref dropped))) (dropped : Nat) :
    Keeping R (failPending perform ref dropped) := by
  intro w
  unfold failPending
  cases found : (w.store.session ref).queue.poll with
  | none =>
    rw [meets_bind_of_ok (pollQueue_none found)]
    dsimp only
    rw [meets_bind_of_ok (observe_apply _ w)]
    exact (keeping_pure dropped).from (Discreet.quiet (.emptied w ref found) fun _ _ => rfl)
  | some pair =>
    rw [meets_bind_of_ok (pollQueue_some found)]
    dsimp only
    rw [meets_bind_of_ok (sessionId_apply ref _)]
    refine (completeRequest_keeps tells (Discreet.quiet (.took w ref found _) (sameNames_took w ref _ _ _)) rfl).bind
      fun _ w' taken => Keeping.from ?_ taken
    refine (goesOn _).bind fun reply => ?_
    split
    · exact keeping_pure _
    · exact keeping_pure _

theorem keeping_enterOpened (ref : SessionRef) : Keeping R (enterOpened ref : Effect σ Unit) := by
  intro w
  unfold enterOpened
  rw [meets_bind_of_ok (session_apply ref w)]
  split
  · rename_i created
    refine (meets_of_ok (modifySession_apply ref _ w)).mpr (Discreet.quiet (.entered w ref .opened ?_)
      (sameNames_mapSession w ref _ fun _ _ => rfl))
    rw [beq_iff_eq.mp created]
    exact .opened
  · exact Discreet.refl w

theorem keeping_enterClosed (tells : Tells R perform) {ref : SessionRef}
    (goesOn : ∀ dropped, Keeping R (perform (.failPending ref dropped))) :
    Keeping R (enterClosed perform ref) := by
  refine Keeping.bind (keeping_of_quiet fun w => ⟨(),_,rfl,.entered w ref .closed (.closed _),
    sameNames_mapSession w ref _ fun _ _ => rfl⟩) fun _ => ?_
  exact (keeping_failPending tells goesOn 0).bind fun _ => (keeping_sessionId ref).bind
    fun _ => keeping_log _ _ _

section Factories

variable (runs : ∀ code how, Keeping R (perform (.run code how)))
include runs

theorem keeping_validateWith (factory : Factory) (config : Json) :
    Keeping R (validateWith perform factory config) := by
  unfold validateWith
  split
  · exact keeping_pure _
  · exact keeping_pure _
  · exact keeping_pure _
  · refine (runs _ _).bind fun reply => ?_
    split <;> exact keeping_pure _

theorem keeping_createWith (factory : Factory) (config : Json) :
    Keeping R (createWith perform factory config) := by
  unfold createWith
  split
  · exact (keeping_makeFilter _).bind fun _ => keeping_pure _
  · exact (keeping_ofExcept _).bind fun _ => (keeping_makeFilter _).bind fun id =>
      (keeping_ofExcept _).bind fun settings => (keeping_settings id fun _ => settings).bind
        fun _ => keeping_pure _
  · exact (keeping_ofExcept _).bind fun _ => (keeping_makeFilter _).bind fun _ => keeping_pure _
  · refine (runs _ _).bind fun reply => ?_
    split <;> exact keeping_pure _

theorem keeping_createValid (type : String) (factory : Factory) (config : Json) :
    Keeping R (createValid perform type factory config) := by
  refine (keeping_createWith runs factory _).attempt.bind fun result => ?_
  split
  · split
    · exact (keeping_log _ _ _).bind fun _ => keeping_fail _
    · exact keeping_fail _
  · exact keeping_fail _
  · exact (keeping_log _ _ _).bind fun _ => keeping_pure _

theorem keeping_createFilter (type : String) (config : Json) :
    Keeping R (createFilter perform type config) := by
  refine keeping_store.bind fun s => ?_
  split
  · exact (keeping_log _ _ _).bind fun _ => keeping_fail _
  · refine (keeping_validateWith runs _ _).bind fun valid => ?_
    dsimp only
    split
    · exact (keeping_log _ _ _).bind fun _ => (keeping_fail _).bind
        fun _ => keeping_createValid runs _ _ _
    · exact keeping_createValid runs _ _ _

theorem keeping_addConfigured (t : Template) (filters : List FilterConfig) :
    Keeping R (addConfigured perform t filters) := by
  induction filters generalizing t with
  | nil => exact keeping_pure t
  | cons f rest ih =>
    unfold addConfigured
    split
    · exact (keeping_log _ _ _).bind fun _ => ih t
    · exact (keeping_createFilter runs _ _).bind fun _ => (keeping_ofExcept _).bind fun t => ih t

theorem keeping_configure (config : SessionConfig) : Keeping R (configure perform config) :=
  keeping_openFactories.bind fun _ => (keeping_ofExcept _).bind fun _ =>
    (keeping_addConfigured runs _ _).bind fun _ => keeping_store.bind fun _ =>
      (keeping_log _ _ _).bind fun _ => keeping_pure _

end Factories
end Performing

end Effect
end SessionPipeline
