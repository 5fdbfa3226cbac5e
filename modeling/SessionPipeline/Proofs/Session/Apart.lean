import SessionPipeline.Proofs.Session.Alongside

/-! What is done for one session is done alike in two worlds that are the same to the session, and spares
whatever is not the session's. -/
namespace SessionPipeline

variable {τ α β : Type} [Naming τ]

/-- Started in two worlds that are the same to the session, the computations end alike, and `gives` holds of
what they return and what is known then. -/
def Scope.Likewise (S : Scope τ) (gives : α → Set Name → Prop) (m m' : Effect (SessionRef → τ) α)
    (w v : World (SessionRef → τ)) : Prop :=
  Effect.Followed
    (fun a u u' => S.Along u u' ∧ S.known w ⊆ S.known u ∧ gives a (S.known u))
    (fun u u' => S.Along u u' ∧ S.known w ⊆ S.known u) (m w) (m' v)

/-- A result of which nothing is asked. -/
def nameless (_ : α) (_ : Set Name) : Prop := True

/-- A result of which the names are known. -/
def naming (names : α → List Name) (a : α) (known : Set Name) : Prop := ∀ n ∈ names a, n ∈ known

/-- The queue of the session is of a size that a machine word tells. -/
def Scope.Roomy (S : Scope τ) (w : World (SessionRef → τ)) : Prop :=
  (w.store.session S.ref).queue.capacity ≤ 2 ^ 63

/-- The task is about the session and what is known. -/
def Task.Within (ref : SessionRef) (known : Set Name) : Task → Prop
  | .run code how => .code code ∈ known ∧ how.Within ref known
  | .deliver _ handle session event =>
    handle.owner = ref ∧ session = ref ∧ ∀ id ∈ event.requests, .request id ∈ known
  | .fire session event => session = ref ∧ ∀ id ∈ event.requests, .request id ∈ known
  | .drain _ session | .clear session | .failPending session _ => session = ref

section Composing

open Effect

variable {S : Scope τ} {w v u u' : World (SessionRef → τ)} {gives : α → Set Name → Prop}
  {given : β → Set Name → Prop} {m m' : Effect (SessionRef → τ) α} {first first' : Effect (SessionRef → τ) β}
  {next next' : β → Effect (SessionRef → τ) α}

theorem Effect.likewise_of_ok {a : α} (returned : m w = .ok a u) (returned' : m' v = .ok a u')
    (along : S.Along u u') (larger : S.known w ⊆ S.known u) (named : gives a (S.known u)) :
    S.Likewise gives m m' w v := by
  unfold Scope.Likewise
  rw [returned,returned']
  exact .returned ⟨along,larger,named⟩

theorem Effect.likewise_pure (along : S.Along w v) {a : α} (named : gives a (S.known w)) :
    S.Likewise gives (pure a) (pure a) w v := likewise_of_ok rfl rfl along subset_rfl named

theorem Effect.likewise_fail (along : S.Along w v) (failure : Failure) :
    S.Likewise gives (fail failure) (fail failure) w v := .failed failure ⟨along,subset_rfl⟩

theorem Effect.likewise_ofExcept (along : S.Along w v) (result : Except Failure α) :
    S.Likewise nameless (ofExcept result) (ofExcept result) w v := by
  cases result with
  | ok a => exact likewise_pure along trivial
  | error failure => exact likewise_fail along failure

/-- What is known at first is known still. -/
theorem Scope.Likewise.from (likewise : S.Likewise gives m m' u u') (larger : S.known w ⊆ S.known u) :
    Followed (fun a t t' => S.Along t t' ∧ S.known w ⊆ S.known t ∧ gives a (S.known t))
      (fun t t' => S.Along t t' ∧ S.known w ⊆ S.known t) (m u) (m' u') :=
  Followed.mono likewise (fun _ _ _ ends => ⟨ends.1,larger.trans ends.2.1,ends.2.2⟩)
    fun _ _ ends => ⟨ends.1,larger.trans ends.2⟩

theorem Scope.Likewise.bind (head : S.Likewise given first first' w v)
    (rest : ∀ b u u', S.Along u u' → S.known w ⊆ S.known u → given b (S.known u) →
      S.Likewise gives (next b) (next' b) u u') :
    S.Likewise gives (first >>= next) (first' >>= next') w v :=
  Followed.bind head (fun b u u' ends => (rest b u u' ends.1 ends.2.1 ends.2.2).from ends.2.1)
    fun _ _ ends => ends

theorem Scope.Likewise.andThen (head : S.Likewise nameless first first' w v)
    (rest : ∀ b u u', S.Along u u' → S.known w ⊆ S.known u → S.Likewise gives (next b) (next' b) u u') :
    S.Likewise gives (first >>= next) (first' >>= next') w v :=
  head.bind fun b u u' along larger _ => rest b u u' along larger

theorem Effect.likewise_failing (along : S.Along w v) (failure : Failure) :
    S.Likewise gives (fail failure >>= next) (fail failure >>= next') w v :=
  .failed failure ⟨along,subset_rfl⟩

/-- Behind a step of which both worlds tell what it returns. -/
theorem Scope.Likewise.step {b b' : β} (returned : first w = .ok b u) (returned' : first' v = .ok b' u')
    (larger : S.known w ⊆ S.known u) (rest : S.Likewise gives (next b) (next' b') u u') :
    S.Likewise gives (first >>= next) (first' >>= next') w v := by
  unfold Scope.Likewise
  rw [bind_of_ok returned,bind_of_ok returned']
  exact rest.from larger

/-- Behind a look at what is the same in both worlds. -/
theorem Scope.Likewise.read {b : β} (reads : first w = .ok b w) (reads' : first' v = .ok b v)
    (rest : S.Likewise gives (next b) (next' b) w v) :
    S.Likewise gives (first >>= next) (first' >>= next') w v := .step reads reads' subset_rfl rest

/-- The result is forgotten for one without names. -/
theorem Scope.Likewise.replies {b : α} (likewise : S.Likewise given first first' w v) :
    S.Likewise nameless (first >>= fun _ => pure b) (first' >>= fun _ => pure b) w v :=
  likewise.bind fun _ _ _ along _ _ => likewise_pure along trivial

theorem Scope.Likewise.attempt (likewise : S.Likewise gives m m' w v) :
    S.Likewise (fun result known => match result with
      | .ok a => gives a known
      | .error _ => True) (attempt m) (attempt m') w v := by
  refine (Followed.attempt likewise).mono (fun result u u' ends => ?_) fun _ _ ends => ends
  cases result with
  | ok a => exact ends
  | error failure => exact ⟨ends.1,ends.2,trivial⟩

end Composing

/-- How tasks are performed alike. -/
def Scope.Performs (S : Scope τ) (perform perform' : Perform (SessionRef → τ)) : Prop :=
  ∀ task w v, S.Along w v → task.Within S.ref (S.known w) →
    S.Likewise nameless (perform task) (perform' task) w v

namespace Effect

variable {S : Scope τ} {w v : World (SessionRef → τ)}

section Steps

variable (along : S.Along w v)
include along

theorem likewise_session : session S.ref v = .ok (w.store.session S.ref) v := by
  rw [session_apply,along.agrees.session]

theorem likewise_chain : chain S.ref v = .ok (w.store.chain S.ref) v := by
  rw [chain_apply,along.chain]

theorem likewise_filter (id : FilterId) : filter id v = .ok (w.store.filter id) v := by
  rw [filter_apply,along.filter]

theorem likewise_request {id : RequestId} (known : .request id ∈ S.known w) :
    request id v = .ok (w.store.request id) v := by
  rw [request_apply,along.agrees.request id known]

theorem likewise_mapSession {change : Session → Session} (keeps : ∀ s, (change s).queue = s.queue) :
    S.Likewise nameless (modifySession S.ref change) (modifySession S.ref change) w v :=
  likewise_of_ok rfl rfl (along.mapSession change keeps) (fun _ known => known) trivial

theorem likewise_tell {o : Observation} (told : o.session? = some S.ref)
    (known : ∀ id ∈ o.requests, .request id ∈ S.known w) :
    S.Likewise nameless (observe o) (observe o) w v :=
  likewise_of_ok rfl rfl (along.record (fun _ same => Option.some.inj (same.symm.trans told)) known)
    (fun _ known => known) trivial

/-- What tells of no session may be told. -/
theorem likewise_note {o : Observation} (apart : o.session? = none) (bare : o.requests = []) :
    S.Likewise nameless (observe o) (observe o) w v :=
  likewise_of_ok rfl rfl (along.record (fun _ same => nomatch apart.symm.trans same) (bare ▸ nofun))
    (fun _ known => known) trivial

theorem likewise_logBytes (logger : String) (level : Logging.Level) (text text' : Bytes)
    (context context' : Logging.Context) :
    S.Likewise nameless (logBytes logger level text context) (logBytes logger level text' context') w v :=
  likewise_of_ok rfl rfl (along.logged ..) (fun _ known => known) trivial

theorem likewise_log (logger : String) (level : Logging.Level) (text text' : String) :
    S.Likewise nameless (log logger level text) (log logger level text') w v :=
  likewise_logBytes along ..

theorem likewise_logChain (level : Logging.Level) (text text' : String) :
    S.Likewise nameless (logChain S.ref level text) (logChain S.ref level text') w v :=
  .step (sessionId_apply ..) (sessionId_apply ..) subset_rfl (likewise_log along ..)

end Steps

variable {perform perform' : Perform (SessionRef → τ)} (performs : S.Performs perform perform')
  (along : S.Along w v)
include performs along

theorem likewise_runCode {code : CodeId} {how : Invocation} (known : .code code ∈ S.known w)
    (within : how.Within S.ref (S.known w)) :
    S.Likewise nameless (runCode perform code how) (runCode perform' code how) w v :=
  (performs (.run code how) _ _ along ⟨known,within⟩).replies

omit performs in
theorem likewise_discardPending (codec : FilterId) :
    S.Likewise nameless (discardPending codec S.ref) (discardPending codec S.ref) w v :=
  likewise_mapSession along fun _ => rfl

omit performs in
theorem likewise_admitCodec (self : FilterId) (name : String) (codecs : List (String × FilterId)) :
    S.Likewise nameless (admitCodec self name S.ref codecs) (admitCodec self name S.ref codecs) w v := by
  induction codecs generalizing w v with
  | nil => exact likewise_pure along trivial
  | cons codec rest ih =>
    unfold admitCodec
    dsimp only
    split
    · exact likewise_failing along _
    · split
      · exact (likewise_discardPending along _).andThen fun _ _ _ along _ => ih along
      · exact ih along

omit performs in
theorem likewise_codecsOf :
    ∃ codecs, codecsOf S.ref w = .ok codecs w ∧ codecsOf S.ref v = .ok codecs v := by
  refine ⟨_,rfl,?_⟩
  unfold codecsOf
  rw [bind_of_ok (store_apply v),along.chain]
  simp only [along.filter]
  rfl

theorem likewise_runHook (id : FilterId) (hook : Hook) (name : String) {handle : Handle}
    (owner : handle.owner = S.ref) :
    S.Likewise nameless (runHook perform id hook name handle) (runHook perform' id hook name handle) w v := by
  have told : (Observation.hooked id hook name handle).session? = some S.ref := congrArg some owner
  refine (likewise_tell along told nofun).andThen fun _ w v along _ => ?_
  refine .read (filter_apply ..) (likewise_filter along id) ?_
  rw [owner]
  cases custom : w.store.filter id with
  | custom label code =>
    exact likewise_runCode performs along (along.within.store.serves code (.inl ⟨id,label,custom⟩)) owner
  | noop => exact likewise_pure along trivial
  | adapter => exact likewise_pure along trivial
  | logging settings =>
    cases hook with
    | preAdd => exact likewise_pure along trivial
    | preRemove => exact likewise_pure along trivial
    | postAdd => exact likewise_mapSession along fun _ => rfl
    | postRemove => exact likewise_mapSession along fun _ => rfl
  | codec writeMaximum readMaximum =>
    cases hook with
    | preAdd =>
      obtain ⟨codecs,here,there⟩ := likewise_codecsOf along
      exact .read here there (likewise_admitCodec along id name codecs)
    | preRemove => exact likewise_pure along trivial
    | postAdd => exact likewise_pure along trivial
    | postRemove => exact likewise_discardPending along id

theorem likewise_notify {future : FutureId} {listener : CodeId} (known : .future future ∈ S.known w)
    (heard : .code listener ∈ S.known w) :
    S.Likewise nameless (notify perform future listener) (notify perform' future listener) w v :=
  (likewise_note along rfl rfl).andThen fun _ _ _ along larger =>
    likewise_runCode performs along (larger heard) (larger known)

theorem likewise_runListeners {future : FutureId} {listeners : List CodeId}
    (known : .future future ∈ S.known w) (heard : ∀ listener ∈ listeners, .code listener ∈ S.known w) :
    S.Likewise nameless (runListeners perform future listeners) (runListeners perform' future listeners)
      w v := by
  induction listeners generalizing w v with
  | nil => exact likewise_pure along trivial
  | cons listener rest ih =>
    refine (likewise_notify performs along known (heard listener List.mem_cons_self)).andThen
      fun _ _ _ along larger => ?_
    exact ih along (larger known) fun l member => larger (heard l (List.mem_cons_of_mem listener member))

theorem likewise_complete {future : FutureId} (outcome : Outcome) (known : .future future ∈ S.known w) :
    S.Likewise nameless (complete perform future outcome) (complete perform' future outcome) w v := by
  have same := along.agrees.future future known
  have heard : ∀ listener ∈ (w.store.future future).listeners, .code listener ∈ S.known w := fun l member =>
    along.within.store.futures future known _ (List.mem_map_of_mem member)
  cases done : (w.store.future future).isDone with
  | true =>
    exact likewise_of_ok (complete_done done outcome) (complete_done (same ▸ done) outcome) along
      subset_rfl trivial
  | false =>
    obtain ⟨along,larger⟩ := along.mapFuture known
      (fun f => { f with outcome := some outcome,listeners := [] }) nofun
    unfold Scope.Likewise
    rw [complete_waiting done,complete_waiting (same ▸ done),← same]
    have told := likewise_runListeners performs along (larger known) fun l member => larger (heard l member)
    exact told.replies.from larger

theorem likewise_listen {future : FutureId} {listener : CodeId} (known : .future future ∈ S.known w)
    (heard : .code listener ∈ S.known w) :
    S.Likewise nameless (listen perform future listener) (listen perform' future listener) w v := by
  refine .step (store_apply w) (store_apply v) subset_rfl ?_
  rw [← along.agrees.future future known]
  split
  · exact likewise_notify performs along known heard
  · have names : ∀ n ∈ ({ w.store.future future with
        listeners := (w.store.future future).listeners ++ [listener] } : WriteFuture).names,
          n ∈ S.known w := by
      intro n member
      simp only [WriteFuture.names,List.map_append,List.mem_append,List.map_cons,List.map_nil,
        List.mem_singleton] at member
      rcases member with before | rfl
      · exact along.within.store.futures future known n before
      · exact heard
    obtain ⟨along,larger⟩ := along.mapFuture known
      (fun f => { f with listeners := f.listeners ++ [listener] }) names
    exact likewise_of_ok rfl rfl along larger trivial

theorem likewise_completeRequest {id : RequestId} (outcome : Outcome) (known : .request id ∈ S.known w) :
    S.Likewise nameless (completeRequest perform id outcome) (completeRequest perform' id outcome) w v := by
  refine .read (request_apply ..) (likewise_request along known) ?_
  cases promised : (w.store.request id).future with
  | none => exact likewise_pure along trivial
  | some future =>
    have known : .future future ∈ S.known w :=
      along.within.store.requests id known _ (by simp [WriteRequest.names,promised])
    exact (likewise_complete performs along outcome known).replies

omit performs in
theorem likewise_pollQueue (roomy : S.Roomy w) :
    S.Likewise (naming fun polled => polled.toList.map .request) (pollQueue S.ref) (pollQueue S.ref) w v := by
  refine .read (session_apply ..) (likewise_session along) ?_
  obtain ⟨ids,held,known⟩ := along.within.store.queue
  cases ids with
  | nil =>
    rw [held.poll_nil]
    exact likewise_pure along nofun
  | cons id rest =>
    obtain ⟨queue,polled,held,_⟩ := held.poll_cons roomy
    rw [polled]
    have taken : .request id ∈ S.known w := known id List.mem_cons_self
    refine .step rfl rfl (fun _ known => known) ?_
    refine .step rfl rfl (fun _ known => known) (likewise_pure ?_ fun n member => ?_)
    · apply Scope.Along.record
      · exact along.requeue _ ⟨rest,held,fun other member => known other (List.mem_cons_of_mem id member)⟩
      · exact fun q told => (Option.some.inj told).symm
      · exact List.forall_mem_singleton.mpr taken
    · exact List.mem_singleton.mp member ▸ taken

theorem likewise_failPending (roomy : S.Roomy w) (dropped : Nat) :
    S.Likewise nameless (failPending perform S.ref dropped) (failPending perform' S.ref dropped) w v := by
  refine (likewise_pollQueue along roomy).bind fun polled w v along _ named => ?_
  cases polled with
  | none =>
    exact (likewise_tell along (o := .emptied S.ref) rfl nofun).replies
  | some id =>
    refine .read (sessionId_apply ..) (by rw [sessionId_apply,along.agrees.session]) ?_
    refine (likewise_completeRequest performs along _ (named _ (by simp))).andThen fun _ w v along _ => ?_
    refine (performs (.failPending S.ref (dropped + 1)) _ _ along rfl).andThen fun reply _ _ along _ => ?_
    cases reply <;> exact likewise_pure along trivial

omit performs in
theorem likewise_handOver (roomy : S.Roomy w) :
    S.Likewise (naming fun polled => polled.toList.map .request) (handOver S.ref) (handOver S.ref) w v := by
  refine (likewise_pollQueue along roomy).bind fun polled w v along _ named => ?_
  cases polled with
  | none => exact likewise_pure along nofun
  | some id =>
    have taken : .request id ∈ S.known w := named _ (by simp)
    refine (likewise_tell along (o := .handed S.ref id) rfl (List.forall_mem_singleton.mpr taken)).andThen
      fun _ _ _ along larger => ?_
    exact likewise_pure along fun n member => larger (named n member)

theorem likewise_callHandler {event : Event} (known : ∀ id ∈ event.requests, .request id ∈ S.known w) :
    S.Likewise nameless (callHandler perform S.ref event) (callHandler perform' S.ref event) w v := by
  refine .step (store_apply w) (store_apply v) subset_rfl ?_
  refine .read (session_apply ..) (likewise_session along) ?_
  rw [along.handler]
  cases custom : w.store.handler (w.store.session S.ref).handler with
  | adapter => exact likewise_pure along trivial
  | custom code =>
    have served := along.within.store.serves code (.inr (.inl ⟨_,custom⟩))
    exact likewise_runCode performs along served ⟨rfl,known⟩

omit performs in
/-- A processor is a loopback in both worlds, or the same code. -/
theorem likewise_processor {γ : Type} {gives : γ → Set Name → Prop} (id : ProcessorId)
    {loop loop' : Nat → Effect (SessionRef → τ) γ} {own own' : CodeId → Effect (SessionRef → τ) γ}
    (loops : ∀ n n', S.Likewise gives (loop n) (loop' n') w v)
    (owns : ∀ code, .code code ∈ S.known w → S.Likewise gives (own code) (own' code) w v) :
    S.Likewise gives (match w.store.processor id with
      | .loopback n => loop n
      | .custom code => own code) (match v.store.processor id with
      | .loopback n => loop' n
      | .custom code => own' code) w v := by
  have same := along.agrees.processor id
  cases here : w.store.processor id with
  | loopback n =>
    cases there : v.store.processor id with
    | loopback n' => exact loops n n'
    | custom code =>
      rw [here,there] at same
      cases same
  | custom code =>
    cases there : v.store.processor id with
    | loopback n' =>
      rw [here,there] at same
      cases same
    | custom code' =>
      rw [here,there] at same
      obtain rfl := Processor.custom.inj same
      exact owns code (along.within.store.serves code (.inr (.inr ⟨id,by rw [here]; rfl⟩)))

theorem likewise_flush (processor : ProcessorId) :
    S.Likewise nameless (flush perform processor S.ref) (flush perform' processor S.ref) w v := by
  refine .step (store_apply w) (store_apply v) subset_rfl ?_
  apply likewise_processor along
  · exact fun _ _ => (performs (.drain processor S.ref) _ _ along rfl).replies
  · exact fun _ known => likewise_runCode performs along known rfl

theorem likewise_removeSession (processor : ProcessorId) :
    S.Likewise nameless (removeSession perform processor S.ref) (removeSession perform' processor S.ref)
      w v := by
  refine .step (store_apply w) (store_apply v) subset_rfl ?_
  apply likewise_processor along
  · intro _ _
    refine .read (session_apply ..) (likewise_session along) ?_
    split
    · exact (performs (.fire S.ref .sessionClosed) _ _ along ⟨rfl,nofun⟩).replies
    · exact likewise_pure along trivial
  · exact fun _ known => likewise_runCode performs along known rfl

/-- An event ends its way; a session that closes takes its requests off its queue. -/
theorem likewise_terminate {event : Event} (known : ∀ id ∈ event.requests, .request id ∈ S.known w)
    (roomy : event = .sessionClosed → S.Roomy w) :
    S.Likewise nameless (terminate perform S.ref event) (terminate perform' S.ref event) w v := by
  have handled {w v : World (SessionRef → τ)} (along : S.Along w v)
      (known : ∀ id ∈ event.requests, .request id ∈ S.known w) :
      S.Likewise nameless (callHandler perform S.ref event) (callHandler perform' S.ref event) w v :=
    likewise_callHandler performs along known
  cases event with
  | sessionOpened =>
    refine Scope.Likewise.andThen ?_ fun _ _ _ along _ => handled along nofun
    refine .read (session_apply ..) (likewise_session along) ?_
    split
    · exact likewise_mapSession along fun _ => rfl
    · exact likewise_pure along trivial
  | sessionClosed =>
    refine Scope.Likewise.andThen ?_ fun _ _ _ along _ => handled along nofun
    have open' : S.Roomy (w.mapSession S.ref (·.enter .closed)) := by
      unfold Scope.Roomy
      rw [World.session_mapSession along.present]
      exact roomy rfl
    refine .step rfl rfl (fun _ known => known) ?_
    have along := along.mapSession (·.enter .closed) fun _ => rfl
    refine (likewise_failPending performs along open' 0).andThen fun dropped w v along _ => ?_
    exact .step (sessionId_apply ..) (sessionId_apply ..) subset_rfl (likewise_log along ..)
  | messageReceived message =>
    refine Scope.Likewise.andThen ?_ fun _ _ _ along _ => handled along nofun
    exact likewise_mapSession along fun _ => rfl
  | messageSent id =>
    refine Scope.Likewise.andThen ?_ fun _ _ _ along larger =>
      handled along fun id member => larger (known id member)
    exact likewise_mapSession along fun _ => rfl
  | filterWrite id =>
    have along := along.requeue (fun s => { s with queue := s.queue.offer id }) (by
      obtain ⟨ids,held,listed⟩ := along.within.store.queue
      refine ⟨ids ++ [id],held.offer id,fun other member => ?_⟩
      rcases List.mem_append.mp member with before | new
      · exact listed other before
      · exact known other new)
    refine .step rfl rfl (fun _ known => known) ?_
    refine .read (session_apply ..) (likewise_session along) ?_
    exact likewise_flush performs along _
  | filterClose =>
    refine .read (session_apply ..) (likewise_session along) ?_
    exact likewise_removeSession performs along _
  | sessionCreated => exact handled along nofun
  | sessionIdle status => exact handled along nofun
  | exceptionCaught cause => exact handled along nofun

theorem likewise_beyond {c : Chain} {handle : Handle} (owner : handle.owner = S.ref) {event : Event}
    (known : ∀ id ∈ event.requests, .request id ∈ S.known w)
    (roomy : event = .sessionClosed → S.Roomy w) :
    S.Likewise nameless (beyond perform c handle S.ref event) (beyond perform' c handle S.ref event) w v := by
  unfold beyond
  dsimp only
  split
  · exact likewise_terminate performs along known roomy
  · split
    · apply Scope.Likewise.replies
      exact performs (.deliver _ (c.handle handle.owner _) S.ref event) _ _ along ⟨owner,rfl,known⟩
    · exact likewise_pure along trivial

theorem likewise_forward {handle : Handle} (owner : handle.owner = S.ref) {event : Event}
    (known : ∀ id ∈ event.requests, .request id ∈ S.known w)
    (roomy : event = .sessionClosed → S.Roomy w) :
    S.Likewise nameless (forward perform handle S.ref event) (forward perform' handle S.ref event) w v := by
  unfold forward
  rw [owner]
  refine .read (chain_apply ..) (likewise_chain along) ?_
  split
  · have told : ∀ q, (passing (w.store.chain S.ref) handle S.ref event).session? = some q → q = S.ref := by
      intro q told
      unfold passing at told
      dsimp only at told
      split at told <;> exact (Option.some.inj told).symm
    have carried : (passing (w.store.chain S.ref) handle S.ref event).requests = event.requests := by
      unfold passing
      dsimp only
      split <;> rfl
    have recorded := along.record told (carried ▸ known)
    refine .step rfl rfl (fun _ known => known) ?_
    exact likewise_beyond performs recorded owner known roomy
  · exact likewise_logChain along ..

theorem likewise_fire {event : Event} (known : ∀ id ∈ event.requests, .request id ∈ S.known w)
    (roomy : event = .sessionClosed → S.Roomy w) :
    S.Likewise nameless (fire perform S.ref event) (fire perform' S.ref event) w v :=
  likewise_forward performs along rfl known roomy

theorem likewise_drain (processor : ProcessorId) (roomy : S.Roomy w) :
    S.Likewise nameless (drain perform processor S.ref) (drain perform' processor S.ref) w v := by
  refine (likewise_pollQueue along roomy).bind fun polled w v along _ named => ?_
  cases polled with
  | none => exact likewise_pure along trivial
  | some id =>
    have taken : .request id ∈ S.known w := named _ (by simp)
    refine .step rfl rfl (fun _ known => known) ?_
    refine (likewise_completeRequest performs (along.counted processor) .written taken).andThen
      fun _ w v along larger => ?_
    have known : ∀ other ∈ (Event.messageSent id).requests, .request other ∈ S.known w :=
      List.forall_mem_singleton.mpr (larger taken)
    refine (likewise_fire performs along known nofun).andThen fun _ w v along _ => ?_
    exact (performs (.drain processor S.ref) _ _ along rfl).replies

omit performs in
theorem likewise_newFuture : S.Likewise (naming fun id => [.future id]) newFuture newFuture w v := by
  obtain ⟨made,promised,larger⟩ := along.withFuture
  have returned : newFuture v = .ok w.store.futures.size v.withFuture := by
    rw [along.level.futures]
    rfl
  exact likewise_of_ok rfl returned made larger (List.forall_mem_singleton.mpr promised)

omit performs in
theorem likewise_newRequest {r : WriteRequest} (names : ∀ n ∈ r.names, n ∈ S.known w) :
    S.Likewise (naming fun id => [.request id]) (newRequest r) (newRequest r) w v := by
  obtain ⟨made,known,larger⟩ := along.withRequest names
  have returned : newRequest r v = .ok w.store.requests.size (v.withRequest r) := by
    rw [along.level.requests]
    rfl
  exact likewise_of_ok rfl returned made larger (List.forall_mem_singleton.mpr known)

omit performs in
theorem likewise_wrapRequest {inner : RequestId} (known : .request inner ∈ S.known w) (message : Message) :
    S.Likewise (naming fun id => [.request id]) (wrapRequest inner message)
      (wrapRequest inner message) w v := by
  refine .read (request_apply ..) (likewise_request along known)
    (likewise_newRequest along fun n member => ?_)
  simp only [WriteRequest.names,Option.toList_some,List.map_cons,List.map_nil,List.mem_append,
    List.mem_singleton] at member
  rcases member with future | rfl
  · exact along.within.store.requests inner known n (List.mem_append_left _ future)
  · exact known

theorem likewise_write (message : Message) :
    S.Likewise (naming fun id => [.future id]) (write perform S.ref message)
      (write perform' S.ref message) w v := by
  refine (likewise_newFuture along).bind fun future w v along _ named => ?_
  have promised : .future future ∈ S.known w := named _ List.mem_cons_self
  have later {u : World (SessionRef → τ)} (larger : S.known w ⊆ S.known u) :
      ∀ n ∈ [Name.future future], n ∈ S.known u := List.forall_mem_singleton.mpr (larger promised)
  refine .read (session_apply ..) (likewise_session along) ?_
  split
  · refine (likewise_log along ..).andThen fun _ w v along larger => ?_
    refine (likewise_complete performs along _ (larger promised)).andThen fun _ _ _ along larger' => ?_
    exact likewise_pure along (later (larger.trans larger'))
  · refine (likewise_newRequest along (r := { message := message,future := some future })
      (later subset_rfl)).bind fun id w v along larger named => ?_
    · have known : ∀ other ∈ (Event.filterWrite id).requests, .request other ∈ S.known w :=
        fun other member => named _ (List.mem_map_of_mem member)
      exact (likewise_fire performs along known nofun).andThen fun _ _ _ along larger' =>
        likewise_pure along (later (larger.trans larger'))

theorem likewise_close : S.Likewise nameless (close perform S.ref) (close perform' S.ref) w v := by
  refine .read (session_apply ..) (likewise_session along) ?_
  split
  · exact likewise_pure along trivial
  · refine (likewise_log along ..).andThen fun _ w v along _ => ?_
    refine .step rfl rfl (fun _ known => known) ?_
    have along := along.mapSession (·.enter .closing) fun _ => rfl
    refine (likewise_tell along (o := .closing S.ref) rfl nofun).andThen fun _ w v along _ => ?_
    exact likewise_fire performs along nofun nofun

end Effect
end SessionPipeline
