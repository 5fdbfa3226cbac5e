import SessionPipeline.Proofs.Effect.Following
import SessionPipeline.Proofs.Session.Onlooker

/-! What is done in two worlds that only an onlooker tells apart is done alike in both: futures, queues,
sessions, the edits of other chains, what an event does at the end of a chain. One of the two runs may lag,
that is, be stopped before the other one ends. -/
namespace SessionPipeline.Onlooker

open Effect

variable {σ α β : Type} {O : Onlooker σ} {lags : Bool} {w v u u' : World σ}

/-- Started in two worlds, the first with the onlooker, the computations end alike. One of them may be stopped
instead, the first if it is said to lag, else the second. -/
def Likewise (O : Onlooker σ) (lags : Bool) (m m' : Effect σ α) (w v : World σ) : Prop :=
  match lags with
  | true => Followed (fun _ => O.Along) O.Along (m w) (m' v)
  | false => Followed (fun _ u' u => O.Along u u') (fun u' u => O.Along u u') (m' v) (m w)

/-- How tasks are performed alike, all but those that are about the onlooker. -/
def Performs (O : Onlooker σ) (lags : Bool) (perform perform' : Perform σ) : Prop :=
  ∀ task w v, O.Along w v → task.Avoids O → O.Likewise lags (perform task) (perform' task) w v

section Composing

variable {m m' : Effect σ α} {first first' : Effect σ β} {next next' : β → Effect σ α}

theorem likewise_of_ok {a : α} (returned : m w = .ok a u) (returned' : m' v = .ok a u')
    (along : O.Along u u') : O.Likewise lags m m' w v := by
  cases lags
  · simpa only [Likewise,returned,returned'] using .returned along
  · simpa only [Likewise,returned,returned'] using .returned along

theorem likewise_pure (along : O.Along w v) (a : α) : O.Likewise lags (pure a) (pure a) w v :=
  likewise_of_ok rfl rfl along

theorem likewise_fail (along : O.Along w v) (failure : Failure) :
    O.Likewise lags (fail failure : Effect σ α) (fail failure) w v := by
  cases lags
  · exact .failed failure along
  · exact .failed failure along

theorem likewise_ofExcept (along : O.Along w v) (result : Except Failure α) :
    O.Likewise lags (ofExcept result) (ofExcept result) w v := by
  cases result with
  | ok a => exact likewise_pure along a
  | error failure => exact likewise_fail along failure

/-- A computation does as another one does that it comes down to. -/
theorem Likewise.from {n n' : Effect σ α} (likewise : O.Likewise lags n n' u u') (same : m w = n u)
    (same' : m' v = n' u') : O.Likewise lags m m' w v := by
  unfold Likewise at likewise ⊢
  rwa [same,same']

theorem Likewise.bind (head : O.Likewise lags first first' w v)
    (rest : ∀ b u u', O.Along u u' → O.Likewise lags (next b) (next' b) u u') :
    O.Likewise lags (first >>= next) (first' >>= next') w v := by
  cases lags with
  | true => exact Followed.bind head (fun b u u' along => rest b u u' along) fun _ _ along => along
  | false => exact Followed.bind head (fun b u' u along => rest b u u' along) fun _ _ along => along

theorem likewise_failing (along : O.Along w v) (failure : Failure) :
    O.Likewise lags (fail failure >>= next) (fail failure >>= next') w v :=
  (likewise_fail along failure).from rfl rfl

/-- Behind a step of which both worlds tell what it returns. -/
theorem Likewise.step {b b' : β} (returned : first w = .ok b u) (returned' : first' v = .ok b' u')
    (rest : O.Likewise lags (next b) (next' b') u u') :
    O.Likewise lags (first >>= next) (first' >>= next') w v :=
  rest.from (bind_of_ok returned) (bind_of_ok returned')

theorem Likewise.attempt (likewise : O.Likewise lags m m' w v) :
    O.Likewise lags (Effect.attempt m) (Effect.attempt m') w v := by
  cases lags with
  | true =>
    refine (Followed.attempt likewise).mono (fun result u u' ends => ?_) fun _ _ along => along
    cases result <;> exact ends
  | false =>
    refine (Followed.attempt likewise).mono (fun result u u' ends => ?_) fun _ _ along => along
    cases result <;> exact ends

theorem Likewise.replies {b : α} (likewise : O.Likewise lags first first' w v) :
    O.Likewise lags (first >>= fun _ => pure b) (first' >>= fun _ => pure b) w v :=
  likewise.bind fun _ _ _ along => likewise_pure along b

end Composing

section Steps

variable (along : O.Along w v)
include along

/-- Behind a look at what is neither session nor log nor history. -/
theorem likewise_store {next next' : Store → Effect σ α}
    (rest : O.Likewise lags (next w.store) (next' w.store) w v)
    (bare : ∀ s, next' s.bare = next' s) :
    O.Likewise lags (store >>= next) (store >>= next') w v := by
  refine .step (store_apply w) (store_apply v) ?_
  rwa [← bare v.store,← along.bare,bare]

/-- Behind a look at what the onlooker leaves of a session. -/
theorem likewise_session {ref : SessionRef} {next next' : Session → Effect σ α}
    (rest : O.Likewise lags (next (w.store.session ref)) (next' (w.store.session ref)) w v)
    (bare : ∀ s, next' (O.veil ref s) = next' s) :
    O.Likewise lags (session ref >>= next) (session ref >>= next') w v := by
  refine .step (session_apply ref w) (session_apply ref v) ?_
  rwa [← bare (v.store.session ref),← along.overlooks.session ref,bare]

theorem likewise_sessionId {ref : SessionRef} {next next' : Nat → Effect σ α}
    (rest : O.Likewise lags (next (w.store.session ref).id) (next' (w.store.session ref).id) w v) :
    O.Likewise lags (sessionId ref >>= next) (sessionId ref >>= next') w v := by
  have same := congrArg Session.id (along.overlooks.session ref)
  change (w.store.session ref).id = (v.store.session ref).id at same
  exact .step (sessionId_apply ref w) (sessionId_apply ref v) (same ▸ rest)

theorem likewise_chain {ref : SessionRef} (other : ref ≠ O.ref) {next next' : Chain → Effect σ α}
    (rest : O.Likewise lags (next (w.store.chain ref)) (next' (w.store.chain ref)) w v) :
    O.Likewise lags (chain ref >>= next) (chain ref >>= next') w v :=
  .step (chain_apply ref w) (chain_apply ref v) (along.chain other ▸ rest)

theorem likewise_filter (id : FilterId) {next next' : Filter → Effect σ α}
    (rest : O.Likewise lags (next (w.store.filter id)) (next' (w.store.filter id)) w v) :
    O.Likewise lags (Effect.filter id >>= next) (Effect.filter id >>= next') w v :=
  .step (filter_apply id w) (filter_apply id v) (along.filter id ▸ rest)

theorem likewise_request (id : RequestId) {next next' : WriteRequest → Effect σ α}
    (rest : O.Likewise lags (next (w.store.request id)) (next' (w.store.request id)) w v) :
    O.Likewise lags (request id >>= next) (request id >>= next') w v := by
  have same := congrArg (Store.request · id) along.bare
  change w.store.request id = v.store.request id at same
  exact .step (request_apply id w) (request_apply id v) (same ▸ rest)

/-- A change of neither sessions nor logs nor history nor filters. -/
theorem likewise_modifyStore {change : Store → Store} (apart : ∀ s, (change s).logging = s.logging ∧
      (change s).sessions = s.sessions ∧ (change s).journal = s.journal ∧ (change s).filters = s.filters ∧
      (change s.bare).bare = (change s).bare) :
    O.Likewise lags (modifyStore change) (modifyStore change) w v := by
  refine likewise_of_ok rfl rfl (along.change (fun s => ?_) (fun s => ?_) fun s plain => ?_)
  all_goals obtain ⟨logging,sessions,journal,filters,bare⟩ := apart s
  · exact ⟨logging,sessions,journal⟩
  · exact bare
  · rwa [filters]

theorem likewise_veiled {ref : SessionRef} {change : Session → Session} (veiled : O.Veiled ref change)
    (keeps : ∀ s, (change s).chain = s.chain) :
    O.Likewise lags (modifySession ref change) (modifySession ref change) w v :=
  likewise_of_ok rfl rfl (along.mapSession veiled fun _ => keeps)

/-- A change of neither the chain nor the attributes of a session. -/
theorem likewise_modifySession {ref : SessionRef} {change : Session → Session}
    (apart : ∀ s, O.veil ref (change s) = change (O.veil ref s) ∧ (change s).chain = s.chain) :
    O.Likewise lags (modifySession ref change) (modifySession ref change) w v :=
  likewise_veiled along (veiled_of_commutes fun s => (apart s).1) fun s => (apart s).2

theorem likewise_modifyChain {ref : SessionRef} (other : ref ≠ O.ref) (change : Chain → Chain) :
    O.Likewise lags (modifyChain ref change) (modifyChain ref change) w v :=
  likewise_of_ok rfl rfl (along.mapSession (veiled_of_ne other _) fun same => absurd same other)

theorem likewise_observe (o : Observation) : O.Likewise lags (observe o) (observe o) w v :=
  likewise_of_ok rfl rfl (along.record rfl)

theorem likewise_logBytes (logger : String) (level : Logging.Level) (text text' : Bytes)
    (context context' : Logging.Context) : O.Likewise lags (logBytes logger level text context)
      (logBytes logger level text' context') w v :=
  likewise_of_ok rfl rfl (along.logged ..)

theorem likewise_log (logger : String) (level : Logging.Level) (text text' : String) :
    O.Likewise lags (log logger level text) (log logger level text') w v := likewise_logBytes along ..

theorem likewise_logChain (ref : SessionRef) (level : Logging.Level) (text text' : String) :
    O.Likewise lags (logChain ref level text) (logChain ref level text') w v :=
  .step (sessionId_apply ..) (sessionId_apply ..) (likewise_log along ..)

theorem likewise_needFilter (name : String) (filter? : Option FilterId)
    {next next' : FilterId → Effect σ α} (rest : ∀ id, O.Likewise lags (next id) (next' id) w v) :
    O.Likewise lags (needFilter name filter? >>= next) (needFilter name filter? >>= next') w v := by
  cases filter? with
  | none => exact likewise_failing along _
  | some id => exact rest id

theorem likewise_discardPending (codec : FilterId) (ref : SessionRef) :
    O.Likewise lags (discardPending codec ref) (discardPending codec ref) w v :=
  likewise_veiled along (veiled_removeAttribute ref (.pending codec)) fun _ => rfl

theorem likewise_codecsOf {ref : SessionRef} (other : ref ≠ O.ref)
    {next next' : List (String × FilterId) → Effect σ α}
    (rest : ∀ codecs, O.Likewise lags (next codecs) (next' codecs) w v) :
    O.Likewise lags (codecsOf ref >>= next) (codecsOf ref >>= next') w v := by
  have same : codecsOf ref v = .ok (((w.store.chain ref).getAll ref).filterMap fun e =>
      e.filter.bind fun id => if (w.store.filter id).isCodec then some (e.name,id) else none) v := by
    simp only [along.filter,along.chain other]
    rfl
  exact .step rfl same (rest _)

theorem likewise_admitCodec (self : FilterId) (name : String) (ref : SessionRef)
    (codecs : List (String × FilterId)) :
    O.Likewise lags (admitCodec self name ref codecs) (admitCodec self name ref codecs) w v := by
  induction codecs generalizing w v with
  | nil => exact likewise_pure along ()
  | cons codec rest ih =>
    unfold admitCodec
    dsimp only
    split
    · exact likewise_failing along _
    · split
      · exact (likewise_discardPending along _ _).bind fun _ _ _ along => ih along
      · exact ih along

theorem likewise_pollQueue (ref : SessionRef) :
    O.Likewise lags (pollQueue ref) (pollQueue ref) w v := by
  refine likewise_session along ?_ fun _ => rfl
  split
  · refine .bind (likewise_modifySession along fun _ => ⟨rfl,rfl⟩) fun _ _ _ along => ?_
    exact (likewise_observe along _).replies
  · exact likewise_pure along none

theorem likewise_handOver (ref : SessionRef) : O.Likewise lags (handOver ref) (handOver ref) w v := by
  refine (likewise_pollQueue along ref).bind fun polled _ _ along => ?_
  cases polled with
  | none => exact likewise_pure along none
  | some id => exact (likewise_observe along _).replies

theorem likewise_newFuture : O.Likewise lags newFuture newFuture w v := by
  refine likewise_store along ?_ fun _ => rfl
  exact .replies (likewise_modifyStore along fun _ => ⟨rfl,rfl,rfl,rfl,rfl⟩)

theorem likewise_newRequest (r : WriteRequest) :
    O.Likewise lags (newRequest r) (newRequest r) w v := by
  refine likewise_store along ?_ fun _ => rfl
  exact .replies (likewise_modifyStore along fun _ => ⟨rfl,rfl,rfl,rfl,rfl⟩)

theorem likewise_wrapRequest (inner : RequestId) (message : Message) :
    O.Likewise lags (wrapRequest inner message) (wrapRequest inner message) w v :=
  likewise_request along inner (likewise_newRequest along _)

theorem likewise_newSession (handler : Option HandlerId) (processor : Option ProcessorId)
    (capacity : UInt64) (allocation : Allocation) :
    O.Likewise lags (newSession handler processor capacity allocation)
      (newSession handler processor capacity allocation) w v := by
  refine likewise_store along ?_ fun _ => rfl
  refine .bind (likewise_modifyStore along fun _ => ⟨rfl,rfl,rfl,rfl,rfl⟩) fun _ _ _ along => ?_
  refine (likewise_ofExcept along _).bind fun queue w v along => ?_
  split
  · exact likewise_fail along _
  · exact likewise_fail along _
  · refine .step (store_apply w) (store_apply v) ?_
    rw [← along.overlooks.size]
    exact .step rfl rfl (likewise_log (along.begin _) ..).replies

end Steps

section Performing

variable {perform perform' : Perform σ} (performs : O.Performs lags perform perform') (along : O.Along w v)
include performs along

theorem likewise_performed (task : Task) (avoids : task.Avoids O) :
    O.Likewise lags (do let _ ← perform task) (do let _ ← perform' task) w v :=
  (performs task w v along avoids).replies

theorem likewise_runCode (code : CodeId) {how : Invocation} (avoids : how.Avoids O) :
    O.Likewise lags (runCode perform code how) (runCode perform' code how) w v :=
  likewise_performed performs along (.run code how) avoids

theorem likewise_runHook (id : FilterId) (hook : Hook) (name : String) {handle : Handle}
    (other : handle.owner ≠ O.ref) :
    O.Likewise lags (runHook perform id hook name handle) (runHook perform' id hook name handle) w v := by
  have apart : handle ≠ O.place := fun same => other (congrArg Handle.owner same)
  refine (likewise_observe along _).bind fun _ w v along => likewise_filter along id ?_
  cases w.store.filter id with
  | custom label code => exact likewise_runCode performs along code apart
  | noop => exact likewise_pure along ()
  | adapter => exact likewise_pure along ()
  | logging settings =>
    cases hook with
    | preAdd => exact likewise_pure along ()
    | preRemove => exact likewise_pure along ()
    | postAdd => exact likewise_veiled along (veiled_setAttribute _ _ _) fun _ => rfl
    | postRemove => exact likewise_veiled along (veiled_removeAttribute _ _) fun _ => rfl
  | codec writeMaximum readMaximum =>
    cases hook with
    | preAdd => exact likewise_codecsOf along other fun codecs => likewise_admitCodec along id name _ codecs
    | preRemove => exact likewise_pure along ()
    | postAdd => exact likewise_pure along ()
    | postRemove => exact likewise_discardPending along id _

section Completion

theorem likewise_notify (future : FutureId) (listener : CodeId) :
    O.Likewise lags (notify perform future listener) (notify perform' future listener) w v :=
  (likewise_observe along _).bind fun _ _ _ along => likewise_runCode performs along listener trivial

theorem likewise_runListeners (future : FutureId) (listeners : List CodeId) :
    O.Likewise lags (runListeners perform future listeners) (runListeners perform' future listeners)
      w v := by
  induction listeners generalizing w v with
  | nil => exact likewise_pure along ()
  | cons listener rest ih =>
    exact (likewise_notify performs along future listener).bind fun _ _ _ along => ih along

theorem likewise_complete (future : FutureId) (outcome : Outcome) :
    O.Likewise lags (complete perform future outcome) (complete perform' future outcome) w v := by
  refine likewise_store along ?_ fun _ => rfl
  dsimp only
  split
  · exact likewise_pure along false
  · refine .bind (likewise_modifyStore along fun _ => ⟨rfl,rfl,rfl,rfl,rfl⟩) fun _ _ _ along => ?_
    exact (likewise_runListeners performs along future _).replies

theorem likewise_listen (future : FutureId) (listener : CodeId) :
    O.Likewise lags (listen perform future listener) (listen perform' future listener) w v := by
  refine likewise_store along ?_ fun _ => rfl
  split
  · exact likewise_notify performs along future listener
  · exact likewise_modifyStore along fun _ => ⟨rfl,rfl,rfl,rfl,rfl⟩

theorem likewise_completeRequest (id : RequestId) (outcome : Outcome) :
    O.Likewise lags (completeRequest perform id outcome) (completeRequest perform' id outcome) w v := by
  refine likewise_request along id ?_
  split
  · exact (likewise_complete performs along _ outcome).replies
  · exact likewise_pure along ()

theorem likewise_failPending (ref : SessionRef) (dropped : Nat) :
    O.Likewise lags (failPending perform ref dropped) (failPending perform' ref dropped) w v := by
  refine (likewise_pollQueue along ref).bind fun polled _ _ along => ?_
  cases polled with
  | none => exact (likewise_observe along _).replies
  | some id =>
    refine likewise_sessionId along ?_
    refine (likewise_completeRequest performs along id _).bind fun _ _ _ along => ?_
    refine (performs (.failPending ref (dropped + 1)) _ _ along trivial).bind fun reply _ _ along => ?_
    cases reply <;> exact likewise_pure along _

theorem likewise_enterClosed (ref : SessionRef) :
    O.Likewise lags (enterClosed perform ref) (enterClosed perform' ref) w v := by
  refine .bind (likewise_modifySession along fun _ => ⟨rfl,rfl⟩) fun _ _ _ along => ?_
  refine (likewise_failPending performs along ref 0).bind fun dropped _ _ along => ?_
  exact likewise_sessionId along (likewise_log along ..)

end Completion

section Edits

variable {ref : SessionRef} (other : ref ≠ O.ref)
include other

omit performs in
theorem likewise_discardEntry (handle : Handle) :
    O.Likewise lags (discardEntry ref handle) (discardEntry ref handle) w v :=
  (likewise_modifyChain along other _).bind fun _ _ _ along => likewise_observe along _

omit performs in
theorem likewise_dropEntry (handle : Handle) (name : String) :
    O.Likewise lags (dropEntry ref handle name) (dropEntry ref handle name) w v :=
  (likewise_modifyChain along other _).bind fun _ _ _ along => likewise_observe along _

omit performs in
theorem likewise_linkEntry (handle : Handle) (name : String) (position : Position) :
    O.Likewise lags (linkEntry ref handle name position) (linkEntry ref handle name position) w v :=
  (likewise_modifyChain along other _).bind fun _ _ _ along => likewise_observe along _

omit performs in
theorem likewise_putBack (handle : Handle) (old : FilterId) (failure : Failure) :
    O.Likewise lags (putBack ref handle old failure) (putBack ref handle old failure) w v := by
  refine likewise_chain along other ?_
  dsimp only
  split
  · exact (likewise_modifyChain along other _).bind fun _ _ _ along => likewise_fail along failure
  · exact likewise_fail along failure

/-- An entry that is admitted is one of the chain that it is admitted to. -/
theorem likewise_admitEntry (position : Position) (name : String) (filter : FilterId)
    {next next' : Handle → Effect σ α}
    (rest : ∀ handle u u', handle.owner = ref → O.Along u u' →
      O.Likewise lags (next handle) (next' handle) u u') :
    O.Likewise lags (admitEntry perform ref position name filter >>= next)
      (admitEntry perform' ref position name filter >>= next') w v := by
  unfold admitEntry
  simp only [bind_assoc]
  refine likewise_chain along other ?_
  refine (likewise_ofExcept along _).bind fun _ w v along => ?_
  have reserved : O.Along (w.reserve ref name filter) (v.reserve ref name filter) := by
    unfold World.reserve
    rw [along.chain other]
    exact along.mapSession (veiled_of_ne other _) fun same => absurd same other
  refine .step (allocateEntry_apply ref name filter w) (allocateEntry_apply ref name filter v) ?_
  rw [← along.chain other]
  refine (likewise_runHook performs reserved filter .preAdd name other).attempt.bind fun asked _ _ along => ?_
  cases asked with
  | error failure =>
    dsimp only
    rw [bind_assoc,bind_assoc]
    exact (likewise_discardEntry along other _).bind fun _ _ _ along => likewise_failing along _
  | ok =>
    dsimp only
    rw [bind_assoc,bind_assoc]
    refine likewise_chain along other ?_
    split
    · rw [bind_assoc,bind_assoc]
      exact (likewise_discardEntry along other _).bind fun _ _ _ along => likewise_failing along _
    · rw [bind_assoc,bind_assoc]
      exact (likewise_linkEntry along other _ name position).bind fun _ _ _ along => rest _ _ _ rfl along

theorem likewise_confirmEntry (name : String) (filter : FilterId) {handle : Handle}
    (owner : handle.owner = ref) : O.Likewise lags (confirmEntry perform ref name filter handle)
      (confirmEntry perform' ref name filter handle) w v := by
  refine (likewise_runHook performs along filter .postAdd name (owner ▸ other)).attempt.bind
    fun told _ _ along => ?_
  cases told with
  | ok => exact likewise_pure along ()
  | error failure =>
    have rolled {w v : World σ} (along : O.Along w v) : O.Likewise lags (do
        logChain ref .debug ("rolled back " ++ name ++ " after onPostAdd failed")
        fail failure : Effect σ Unit) (do
        logChain ref .debug ("rolled back " ++ name ++ " after onPostAdd failed")
        fail failure) w v :=
      (likewise_logChain along ..).bind fun _ _ _ along => likewise_fail along failure
    refine likewise_chain along other ?_
    dsimp only
    split
    · exact (likewise_dropEntry along other handle name).bind fun _ _ _ along => rolled along
    · exact rolled along

theorem likewise_add (position : Position) (name : String) (filter? : Option FilterId) :
    O.Likewise lags (add perform ref position name filter?) (add perform' ref position name filter?) w v := by
  refine likewise_needFilter along name filter? fun id => ?_
  refine likewise_admitEntry performs along other position name id fun handle w v owner along => ?_
  refine .step (store_apply w) (store_apply v) ?_
  refine (likewise_logChain along ..).bind fun _ _ _ along => ?_
  exact likewise_confirmEntry performs along other name id owner

theorem likewise_addAll (entries : List (String × FilterId)) :
    O.Likewise lags (addAll perform ref entries) (addAll perform' ref entries) w v := by
  induction entries generalizing w v with
  | nil => exact likewise_pure along ()
  | cons entry rest ih =>
    exact (likewise_add performs along other _ _ _).bind fun _ _ _ along => ih along

theorem likewise_removeEntry (id : EntryId) :
    O.Likewise lags (removeEntry perform ref id) (removeEntry perform' ref id) w v := by
  refine likewise_chain along other ?_
  dsimp only
  split
  · exact likewise_pure along none
  · refine (likewise_runHook performs along _ _ _ other).attempt.bind fun asked _ _ along => ?_
    cases asked with
    | error failure => exact likewise_failing along _
    | ok =>
      refine likewise_chain along other ?_
      split
      · refine (likewise_dropEntry along other _ _).bind fun _ _ _ along => ?_
        refine (likewise_logChain along ..).bind fun _ _ _ along => ?_
        exact (likewise_runHook performs along _ _ _ other).replies
      · exact likewise_pure along _

theorem likewise_remove (name : String) :
    O.Likewise lags (remove perform ref name) (remove perform' ref name) w v := by
  refine likewise_chain along other ?_
  split
  · exact likewise_removeEntry performs along other _
  · exact likewise_fail along _

theorem likewise_removeFilter (filter? : Option FilterId) :
    O.Likewise lags (removeFilter perform ref filter?) (removeFilter perform' ref filter?) w v := by
  refine likewise_chain along other ?_
  split
  · exact (likewise_removeEntry performs along other _).replies
  · exact likewise_store along (likewise_fail along _) fun _ => rfl

theorem likewise_exchange (name : String) (filter : FilterId) {handle : Handle}
    (owner : handle.owner = ref) : O.Likewise lags (exchange perform ref name filter handle)
      (exchange perform' ref name filter handle) w v := by
  refine likewise_chain along other ?_
  dsimp only
  split
  · exact likewise_failing along _
  · split
    · exact likewise_pure along none
    · rename_i old _
      refine (likewise_modifyChain along other _).bind fun _ w v along => ?_
      refine .step (store_apply w) (store_apply v) ?_
      refine (likewise_logChain along ..).bind fun _ _ _ along => ?_
      refine (likewise_runHook performs along filter .postAdd name (owner ▸ other)).attempt.bind
        fun told _ _ along => ?_
      cases told with
      | error failure => exact likewise_putBack along other handle old failure
      | ok => exact likewise_pure along _

theorem likewise_replace (name : String) (filter? : Option FilterId) :
    O.Likewise lags (replace perform ref name filter?) (replace perform' ref name filter?) w v := by
  refine likewise_needFilter along name filter? fun id => likewise_chain along other ?_
  cases found : (w.store.chain ref).find? name with
  | none =>
    rw [getHandle_eq_error ref found]
    exact likewise_failing along _
  | some entry =>
    rw [getHandle_eq_ok ref found]
    refine .step rfl rfl ?_
    refine (likewise_runHook performs along id .preAdd name other).attempt.bind fun asked _ _ along => ?_
    cases asked with
    | error failure => exact likewise_failing along _
    | ok => exact likewise_exchange performs along other name id rfl

theorem likewise_clear : O.Likewise lags (clear perform ref) (clear perform' ref) w v := by
  refine likewise_chain along other ?_
  split
  · split
    · exact likewise_pure along ()
    · refine (likewise_removeEntry performs along other _).bind fun _ _ _ along => ?_
      exact likewise_performed performs along (.clear ref) other
  · exact likewise_pure along ()

end Edits

section Ends

theorem likewise_callHandler (ref : SessionRef) (event : Event) :
    O.Likewise lags (callHandler perform ref event) (callHandler perform' ref event) w v := by
  refine likewise_store along (likewise_session along ?_ fun _ => rfl) fun _ => rfl
  split
  · exact likewise_pure along ()
  · exact likewise_runCode performs along _ trivial

theorem likewise_flush (processor : ProcessorId) (ref : SessionRef) :
    O.Likewise lags (flush perform processor ref) (flush perform' processor ref) w v := by
  refine likewise_store along ?_ fun _ => rfl
  split
  · exact likewise_performed performs along (.drain processor ref) trivial
  · exact likewise_runCode performs along _ trivial

theorem likewise_removeSession (processor : ProcessorId) (ref : SessionRef) :
    O.Likewise lags (removeSession perform processor ref) (removeSession perform' processor ref) w v := by
  refine likewise_store along ?_ fun _ => rfl
  split
  · refine likewise_session along ?_ fun _ => rfl
    split
    · exact likewise_performed performs along (.fire ref .sessionClosed) trivial
    · exact likewise_pure along ()
  · exact likewise_runCode performs along _ trivial

/-- An event that has passed every entry does the same at the end of either chain. -/
theorem likewise_terminate (ref : SessionRef) (event : Event) :
    O.Likewise lags (terminate perform ref event) (terminate perform' ref event) w v := by
  have handled {w v : World σ} (along : O.Along w v) :
      O.Likewise lags (callHandler perform ref event) (callHandler perform' ref event) w v :=
    likewise_callHandler performs along ref event
  cases event with
  | sessionOpened =>
    refine Likewise.bind ?_ fun _ _ _ along => handled along
    refine likewise_session along ?_ fun _ => rfl
    split
    · exact likewise_modifySession along fun _ => ⟨rfl,rfl⟩
    · exact likewise_pure along ()
  | sessionClosed => exact (likewise_enterClosed performs along ref).bind fun _ _ _ along => handled along
  | messageReceived message =>
    exact .bind (likewise_modifySession along fun _ => ⟨rfl,rfl⟩) fun _ _ _ along => handled along
  | messageSent id =>
    exact .bind (likewise_modifySession along fun _ => ⟨rfl,rfl⟩) fun _ _ _ along => handled along
  | filterWrite id =>
    refine .bind (likewise_modifySession along fun _ => ⟨rfl,rfl⟩) fun _ _ _ along => ?_
    refine likewise_session along ?_ fun _ => rfl
    exact likewise_flush performs along _ ref
  | filterClose =>
    refine likewise_session along ?_ fun _ => rfl
    exact likewise_removeSession performs along _ ref
  | sessionCreated => exact handled along
  | sessionIdle status => exact handled along
  | exceptionCaught cause => exact handled along

end Ends

end Performing

end SessionPipeline.Onlooker
