import SessionPipeline.Proofs.Chain.Refusal
import SessionPipeline.Proofs.Session.Apart

/-! What filters, edits of a chain, calls and scripts do for one session is done alike in two worlds that
are the same to the session. -/
namespace SessionPipeline.Effect

variable {τ : Type} [Naming τ] {S : Scope τ} {w v : World (SessionRef → τ)}

section Codec

variable {onward onward' : Event → Effect (SessionRef → τ) Unit}
  (passes : ∀ event w v, S.Along w v → (∀ id ∈ event.requests, .request id ∈ S.known w) →
    (event = .sessionClosed → S.Roomy w) → S.Likewise nameless (onward event) (onward' event) w v)
include passes

theorem likewise_forwardFrames (along : S.Along w v) (frames : List Bytes) :
    S.Likewise nameless (forwardFrames onward frames) (forwardFrames onward' frames) w v := by
  induction frames generalizing w v with
  | nil => exact likewise_pure along trivial
  | cons frame rest ih =>
    exact (passes (.messageReceived (.bytes frame)) _ _ along nofun nofun).andThen
      fun _ _ _ along _ => ih along

variable (along : S.Along w v)
include along

theorem likewise_receiveBytes (self : FilterId) (maximum : UInt64) (input : Bytes) :
    S.Likewise nameless (receiveBytes onward self maximum S.ref input)
      (receiveBytes onward' self maximum S.ref input) w v := by
  have kept {w v : World (SessionRef → τ)} (along : S.Along w v) (rest : Bytes) :
      S.Likewise nameless (keepPending self S.ref rest) (keepPending self S.ref rest) w v :=
    likewise_mapSession along fun _ => rfl
  refine .read (session_apply ..) (likewise_session along) ?_
  dsimp only
  split
  · exact (kept along _).andThen fun _ _ _ along _ => likewise_forwardFrames passes along _
  · refine (likewise_log along ..).andThen fun _ _ _ along _ => ?_
    refine (kept along _).andThen fun _ _ _ along _ => ?_
    refine (likewise_forwardFrames passes along _).andThen fun _ _ _ along _ => ?_
    exact passes (.exceptionCaught _) _ _ along nofun nofun

theorem likewise_encodeRequest (maximum : UInt64) {id : RequestId} (known : .request id ∈ S.known w) :
    S.Likewise nameless (encodeRequest onward maximum S.ref id) (encodeRequest onward' maximum S.ref id)
      w v := by
  refine .read (request_apply ..) (likewise_request along known) ?_
  split
  · exact passes (.filterWrite id) _ _ along (List.forall_mem_singleton.mpr known) nofun
  · refine (likewise_ofExcept along _).andThen fun encoded _ _ along larger => ?_
    refine .read (sessionId_apply ..) (by rw [sessionId_apply,along.agrees.session]) ?_
    refine (likewise_log along ..).andThen fun _ _ _ along larger' => ?_
    refine (likewise_wrapRequest along (larger' (larger known)) _).bind fun wrapper _ _ along _ named => ?_
    exact passes (.filterWrite wrapper) _ _ along (fun other member =>
      named _ (List.mem_map_of_mem member)) nofun

theorem likewise_codecEvent (self : FilterId) (writeMaximum readMaximum : UInt64) {event : Event}
    (known : ∀ id ∈ event.requests, .request id ∈ S.known w)
    (roomy : event = .sessionClosed → S.Roomy w) :
    S.Likewise nameless (codecEvent onward self writeMaximum readMaximum S.ref event)
      (codecEvent onward' self writeMaximum readMaximum S.ref event) w v := by
  unfold codecEvent
  split
  · have open' : S.Roomy (w.mapSession S.ref fun s => s.removeAttribute (.pending self)) := by
      unfold Scope.Roomy
      rw [World.session_mapSession along.present]
      exact roomy rfl
    refine .step rfl rfl (fun _ known => known) ?_
    exact passes .sessionClosed _ _ (along.mapSession _ fun _ => rfl) nofun fun _ => open'
  · exact likewise_receiveBytes passes along self readMaximum _
  · rename_i id
    have known : .request id ∈ S.known w := known id List.mem_cons_self
    refine .read (request_apply ..) (likewise_request along known) ?_
    refine passes (.messageSent _) _ _ along (List.forall_mem_singleton.mpr ?_) nofun
    cases wrapped : (w.store.request id).inner with
    | none => exact known
    | some inner => exact along.within.store.requests id known _ (by simp [WriteRequest.names,wrapped])
  · exact likewise_encodeRequest passes along writeMaximum (known _ List.mem_cons_self)
  · exact passes _ _ _ along known roomy

end Codec

section Calls

variable {perform perform' : Perform (SessionRef → τ)} (performs : S.Performs perform perform')
  (along : S.Along w v)
include performs along

theorem likewise_deliver (id : FilterId) {handle : Handle} (owner : handle.owner = S.ref) {event : Event}
    (known : ∀ id ∈ event.requests, .request id ∈ S.known w)
    (roomy : event = .sessionClosed → S.Roomy w) :
    S.Likewise nameless (deliver perform id handle S.ref event) (deliver perform' id handle S.ref event)
      w v := by
  have passes (event : Event) (w v : World (SessionRef → τ)) (along : S.Along w v)
      (known : ∀ id ∈ event.requests, .request id ∈ S.known w)
      (roomy : event = .sessionClosed → S.Roomy w) :
      S.Likewise nameless (forward perform handle S.ref event) (forward perform' handle S.ref event) w v :=
    likewise_forward performs along owner known roomy
  refine .read (filter_apply ..) (likewise_filter along id) ?_
  cases custom : w.store.filter id with
  | noop => exact passes event _ _ along known roomy
  | adapter => exact passes event _ _ along known roomy
  | logging settings =>
    have logs (u : World (SessionRef → τ)) : ∃ text context, logEvent id settings S.ref event u =
        .ok () (u.logged settings.logger (settings.level event.kind) text context) := ⟨_,_,rfl⟩
    obtain ⟨text,context,logged⟩ := logs w
    obtain ⟨text',context',logged'⟩ := logs v
    exact .step logged logged' (fun _ known => known) (passes event _ _ (along.logged ..) known roomy)
  | codec writeMaximum readMaximum =>
    exact likewise_codecEvent passes along id writeMaximum readMaximum known roomy
  | custom label code =>
    exact likewise_runCode performs along (along.within.store.serves code (.inl ⟨id,label,custom⟩))
      ⟨owner,rfl,known⟩

section Edits

omit performs

theorem likewise_vetoed {α : Type} {gives : α → Set Name → Prop} (veto : String → Failure)
    (failure : Failure) : S.Likewise gives (vetoed veto failure) (vetoed veto failure) w v :=
  likewise_fail along _

theorem likewise_edit (change : Chain → Chain) {o : Observation} (told : o.session? = some S.ref)
    (bare : o.requests = []) : S.Likewise nameless (do modifyChain S.ref change; observe o)
      (do modifyChain S.ref change; observe o) w v :=
  .step rfl rfl (fun _ known => known) (likewise_tell (along.mapChain change) told (bare ▸ nofun))

theorem likewise_putBack (handle : Handle) (old : FilterId) (failure : Failure) :
    S.Likewise nameless (putBack S.ref handle old failure) (putBack S.ref handle old failure) w v := by
  refine .read (chain_apply ..) (likewise_chain along) ?_
  dsimp only
  split
  · exact .step (modifyChain_apply ..) (modifyChain_apply ..) (fun _ known => known)
      (likewise_fail (along.mapChain _) failure)
  · exact likewise_fail along failure

variable {handle : Handle} (owner : handle.owner = S.ref)
include owner

theorem likewise_linkEntry (name : String) (position : Position) :
    S.Likewise nameless (linkEntry S.ref handle name position) (linkEntry S.ref handle name position) w v :=
  likewise_edit along _ (congrArg some owner) rfl

theorem likewise_discardEntry :
    S.Likewise nameless (discardEntry S.ref handle) (discardEntry S.ref handle) w v :=
  likewise_edit along _ (congrArg some owner) rfl

theorem likewise_dropEntry (name : String) :
    S.Likewise nameless (dropEntry S.ref handle name) (dropEntry S.ref handle name) w v :=
  likewise_edit along _ (congrArg some owner) rfl

end Edits

theorem likewise_admitEntry (position : Position) (name : String) (filter : FilterId) :
    S.Likewise (fun handle _ => handle.owner = S.ref) (admitEntry perform S.ref position name filter)
      (admitEntry perform' S.ref position name filter) w v := by
  refine .read (chain_apply ..) (likewise_chain along) ?_
  refine (likewise_ofExcept along _).andThen fun _ w v along _ => ?_
  have reserves : allocateEntry S.ref name filter v =
      .ok ((w.store.chain S.ref).reserved S.ref name filter) (v.reserve S.ref name filter) := by
    rw [allocateEntry_apply,along.chain]
  have reserved : S.Along (w.reserve S.ref name filter) (v.reserve S.ref name filter) := by
    unfold World.reserve
    rw [along.chain]
    exact along.mapChain _
  refine .step (allocateEntry_apply ..) reserves (fun _ known => known) ?_
  refine (likewise_runHook performs reserved filter .preAdd name rfl).attempt.bind
    fun asked w v along _ _ => ?_
  cases asked with
  | error failure =>
    exact (likewise_discardEntry along rfl).andThen fun _ _ _ along _ => likewise_vetoed along _ failure
  | ok =>
    refine .read (chain_apply ..) (likewise_chain along) ?_
    split
    · exact (likewise_discardEntry along rfl).andThen fun _ _ _ along _ => likewise_fail along _
    · exact (likewise_linkEntry along rfl name position).andThen fun _ _ _ along _ => likewise_pure along rfl

theorem likewise_confirmEntry (name : String) (filter : FilterId) {handle : Handle}
    (owner : handle.owner = S.ref) : S.Likewise nameless (confirmEntry perform S.ref name filter handle)
      (confirmEntry perform' S.ref name filter handle) w v := by
  refine (likewise_runHook performs along filter .postAdd name owner).attempt.bind
    fun told w v along _ _ => ?_
  cases told with
  | ok => exact likewise_pure along trivial
  | error failure =>
    refine .read (chain_apply ..) (likewise_chain along) ?_
    have rolled {w v : World (SessionRef → τ)} (along : S.Along w v) :
        S.Likewise nameless (do
          logChain S.ref .debug ("rolled back " ++ name ++ " after onPostAdd failed")
          fail failure : Effect (SessionRef → τ) Unit) (do
          logChain S.ref .debug ("rolled back " ++ name ++ " after onPostAdd failed")
          fail failure) w v :=
      (likewise_logChain along ..).andThen fun _ _ _ along _ => likewise_fail along failure
    dsimp only
    split
    · exact (likewise_dropEntry along owner name).andThen fun _ _ _ along _ => rolled along
    · exact rolled along

omit performs in
theorem likewise_needFilter {α : Type} {gives : α → Set Name → Prop} (name : String)
    (filter : Option FilterId) {next next' : FilterId → Effect (SessionRef → τ) α}
    (rest : ∀ id, S.Likewise gives (next id) (next' id) w v) :
    S.Likewise gives (needFilter name filter >>= next) (needFilter name filter >>= next') w v := by
  cases filter with
  | none => exact likewise_failing along _
  | some id => exact rest id

theorem likewise_add (position : Position) (name : String) (filter : Option FilterId) :
    S.Likewise nameless (add perform S.ref position name filter) (add perform' S.ref position name filter)
      w v := by
  refine likewise_needFilter along name filter fun id => ?_
  refine (likewise_admitEntry performs along position name id).bind fun handle w v along _ owner => ?_
  refine .step (store_apply w) (store_apply v) subset_rfl ?_
  refine (likewise_logChain along ..).andThen fun _ w v along _ => ?_
  exact likewise_confirmEntry performs along name id owner

theorem likewise_removeEntry (id : EntryId) :
    S.Likewise nameless (removeEntry perform S.ref id) (removeEntry perform' S.ref id) w v := by
  refine .read (chain_apply ..) (likewise_chain along) ?_
  dsimp only
  split
  · exact likewise_pure along trivial
  · rename_i filter _
    have leave {w' v' : World (SessionRef → τ)} (along : S.Along w' v') : S.Likewise nameless (do
        if (← chain S.ref).isCurrent ((w.store.chain S.ref).handle S.ref id) then
          dropEntry S.ref ((w.store.chain S.ref).handle S.ref id) ((w.store.chain S.ref).slot id).name
          logChain S.ref .debug ("removed " ++ ((w.store.chain S.ref).slot id).name)
          runHook perform filter .postRemove ((w.store.chain S.ref).slot id).name
            ((w.store.chain S.ref).handle S.ref id)
        return some filter) (do
        if (← chain S.ref).isCurrent ((w.store.chain S.ref).handle S.ref id) then
          dropEntry S.ref ((w.store.chain S.ref).handle S.ref id) ((w.store.chain S.ref).slot id).name
          logChain S.ref .debug ("removed " ++ ((w.store.chain S.ref).slot id).name)
          runHook perform' filter .postRemove ((w.store.chain S.ref).slot id).name
            ((w.store.chain S.ref).handle S.ref id)
        return some filter) w' v' := by
      refine .read (chain_apply ..) (likewise_chain along) ?_
      dsimp only
      split
      · refine (likewise_dropEntry along rfl _).andThen fun _ _ _ along _ => ?_
        refine (likewise_logChain along ..).andThen fun _ _ _ along _ => ?_
        exact (likewise_runHook performs along _ _ _ rfl).replies
      · exact likewise_pure along trivial
    refine (likewise_runHook performs along _ _ _ rfl).attempt.bind fun asked w v along _ _ => ?_
    cases asked with
    | error failure => exact likewise_failing along _
    | ok => exact leave along

theorem likewise_remove (name : String) :
    S.Likewise nameless (remove perform S.ref name) (remove perform' S.ref name) w v := by
  refine .read (chain_apply ..) (likewise_chain along) ?_
  split
  · exact likewise_removeEntry performs along _
  · exact likewise_fail along _

theorem likewise_removeFilter (filter : Option FilterId) :
    S.Likewise nameless (removeFilter perform S.ref filter) (removeFilter perform' S.ref filter) w v := by
  refine .read (chain_apply ..) (likewise_chain along) ?_
  split
  · exact (likewise_removeEntry performs along _).replies
  · refine .step (store_apply w) (store_apply v) subset_rfl ?_
    rw [along.label]
    exact likewise_fail along _

theorem likewise_exchange (name : String) (filter : FilterId) {handle : Handle}
    (owner : handle.owner = S.ref) : S.Likewise nameless (exchange perform S.ref name filter handle)
      (exchange perform' S.ref name filter handle) w v := by
  refine .read (chain_apply ..) (likewise_chain along) ?_
  dsimp only
  split
  · exact likewise_failing along _
  · split
    · exact likewise_pure along trivial
    · rename_i old _
      refine .step (modifyChain_apply ..) (modifyChain_apply ..) (fun _ known => known) ?_
      refine .step (store_apply _) (store_apply _) subset_rfl ?_
      refine (likewise_logChain (along.mapChain _) ..).andThen fun _ w v along _ => ?_
      refine (likewise_runHook performs along filter .postAdd name owner).attempt.bind
        fun told _ _ along _ _ => ?_
      cases told with
      | error failure => exact likewise_putBack along handle old failure
      | ok => exact likewise_pure along trivial

theorem likewise_replace (name : String) (filter : Option FilterId) :
    S.Likewise nameless (replace perform S.ref name filter) (replace perform' S.ref name filter) w v := by
  refine likewise_needFilter along name filter fun id => ?_
  refine .read (chain_apply ..) (likewise_chain along) ?_
  cases found : (w.store.chain S.ref).find? name with
  | none =>
    rw [getHandle_eq_error S.ref found]
    exact likewise_failing along _
  | some entry =>
    rw [getHandle_eq_ok S.ref found]
    refine .read rfl rfl ?_
    refine (likewise_runHook performs along id .preAdd name rfl).attempt.bind fun asked w v along _ _ => ?_
    cases asked with
    | error failure => exact likewise_failing along _
    | ok => exact likewise_exchange performs along name id rfl

theorem likewise_clear : S.Likewise nameless (clear perform S.ref) (clear perform' S.ref) w v := by
  refine .read (chain_apply ..) (likewise_chain along) ?_
  split
  · split
    · exact likewise_pure along trivial
    · refine (likewise_removeEntry performs along _).andThen fun _ _ _ along _ => ?_
      exact (performs (.clear S.ref) _ _ along rfl).replies
  · exact likewise_pure along trivial

theorem likewise_addAll (entries : List (String × FilterId)) :
    S.Likewise nameless (addAll perform S.ref entries) (addAll perform' S.ref entries) w v := by
  induction entries generalizing w v with
  | nil => exact likewise_pure along trivial
  | cons entry rest ih => exact (likewise_add performs along _ _ _).andThen fun _ _ _ along _ => ih along

section Replies

omit performs along

variable {α : Type} {c : Call} {r : α → Reply}

/-- What a call does is replied in words that give no name. -/
theorem likewise_replied {m m' : Effect (SessionRef → τ) α} (likewise : S.Likewise nameless m m' w v)
    (bare : ∀ a, c.gives (r a) = []) :
    S.Likewise (naming c.gives) (do return r (← m)) (do return r (← m')) w v :=
  likewise.andThen fun a _ _ along _ => likewise_pure along fun n member => by
    rw [bare] at member
    cases member

/-- What a call does is replied with the names that it gives. -/
theorem likewise_named {names : α → List Name} {m m' : Effect (SessionRef → τ) α}
    (likewise : S.Likewise (naming names) m m' w v) (same : ∀ a, c.gives (r a) = names a) :
    S.Likewise (naming c.gives) (do return r (← m)) (do return r (← m')) w v :=
  likewise.bind fun a _ _ along _ named => likewise_pure along fun n member => named n (same a ▸ member)

end Replies

/-- A call about the session is answered alike. -/
theorem likewise_ofCall {c : Call} (within : c.Within S.ref (S.known w)) (roomy : S.Roomy w) :
    S.Likewise (naming c.gives) (ofCall perform c) (ofCall perform' c) w v := by
  have done {m m' : Effect (SessionRef → τ) Unit} (likewise : S.Likewise nameless m m' w v)
      (bare : c.gives .unit = []) :
      S.Likewise (naming c.gives) (do m; return .unit) (do m'; return .unit) w v :=
    likewise_replied (r := fun _ => .unit) likewise fun _ => bare
  cases c with
  | note note => exact done (likewise_note along rfl rfl) rfl
  | print stderr line => exact done (likewise_note along rfl rfl) rfl
  | log logger level text => exact done (likewise_log along ..) rfl
  | add ref position name filter =>
    obtain rfl := within
    exact done (likewise_add performs along ..) rfl
  | remove ref name =>
    obtain rfl := within
    exact likewise_replied (likewise_remove performs along name) fun _ => rfl
  | removeFilter ref filter =>
    obtain rfl := within
    exact likewise_replied (likewise_removeFilter performs along filter) fun _ => rfl
  | replace ref name filter =>
    obtain rfl := within
    exact likewise_replied (likewise_replace performs along name filter) fun _ => rfl
  | clear ref =>
    obtain rfl := within
    exact done (likewise_clear performs along) rfl
  | addAll ref entries =>
    obtain rfl := within
    exact done (likewise_addAll performs along entries) rfl
  | fire ref event =>
    obtain ⟨rfl,known⟩ := within
    exact done (likewise_fire performs along known fun _ => roomy) rfl
  | forward handle ref event =>
    obtain ⟨owner,rfl,known⟩ := within
    exact done (likewise_forward performs along owner known fun _ => roomy) rfl
  | write ref message =>
    obtain rfl := within
    exact likewise_named (likewise_write performs along message) fun _ => rfl
  | close ref =>
    obtain rfl := within
    exact done (likewise_close performs along) rfl
  | setAttribute ref key value =>
    obtain rfl := within
    exact done (likewise_mapSession along fun _ => rfl) rfl
  | removeAttribute ref key =>
    obtain rfl := within
    refine .read (session_apply ..) (likewise_session along) ?_
    exact likewise_replied (r := fun _ => _) (likewise_mapSession along fun _ => rfl) fun _ => rfl
  | pollQueue ref =>
    obtain rfl := within
    exact likewise_named (likewise_handOver along roomy) fun _ => rfl
  | flush processor ref =>
    obtain rfl := within
    exact done (likewise_flush performs along processor) rfl
  | removeSession processor ref =>
    obtain rfl := within
    exact done (likewise_removeSession performs along processor) rfl
  | newFuture => exact likewise_named (likewise_newFuture along) fun _ => rfl
  | complete future outcome =>
    exact likewise_replied (likewise_complete performs along outcome within) fun _ => rfl
  | listen future listener => exact done (likewise_listen performs along within.1 within.2) rfl
  | newRequest message future =>
    refine likewise_named (likewise_newRequest along fun n member => ?_) fun _ => rfl
    cases future with
    | none => cases member
    | some future =>
      obtain rfl := List.mem_singleton.mp member
      exact within future rfl
  | wrapRequest inner message =>
    exact likewise_named (likewise_wrapRequest along within message) fun _ => rfl
  | _ => exact within.elim

theorem likewise_answer {c : Call} (within : c.Within S.ref (S.known w)) (roomy : S.Roomy w) :
    S.Likewise (naming c.gives) (answer perform c) (answer perform' c) w v := by
  have own : ∀ ref ∈ c.sessions, ref = S.ref := within.sessions
  refine .read (needSessions_apply fun ref member => ?_) (needSessions_apply fun ref member => ?_)
    (likewise_ofCall performs along within roomy)
  · rw [own ref member]
    exact along.present
  · rw [own ref member]
    exact along.present'

end Calls
end SessionPipeline.Effect

namespace SessionPipeline

/-- Stops a run as soon as a queue has more slots than a machine word tells. -/
def crowded {σ : Type} : Watch σ := fun _ w =>
  w.store.sessions.any fun s => decide (2 ^ 63 < s.queue.capacity)

section Watching

open Effect

variable {τ : Type} [Naming τ] {S : Scope τ} {w v : World (SessionRef → τ)}

theorem Scope.roomy_of_uncrowded (along : S.Along w v) {moment : Moment (SessionRef → τ)}
    (passed : crowded moment w = false) : S.Roomy w := by
  simp only [crowded,Array.any_eq_false,decide_eq_true_eq,Nat.not_lt] at passed
  have here := passed S.ref along.present
  simpa [Scope.Roomy,Store.session,along.present] using here

/-- Only the first run is stopped, and where it is not there is room. -/
theorem Scope.Likewise.behind_pause {α : Type} {gives : α → Set Name → Prop}
    {moment : Moment (SessionRef → τ)} {next : Unit → Effect (SessionRef → τ) α}
    {m : Effect (SessionRef → τ) α} (along : S.Along w v)
    (rest : S.Roomy w → S.Likewise gives (next ()) m w v) :
    S.Likewise gives (pause crowded moment >>= next) m w v := by
  unfold Scope.Likewise
  cases passed : crowded moment w with
  | false =>
    rw [bind_of_ok (pause_passed passed)]
    exact rest (Scope.roomy_of_uncrowded along passed)
  | true =>
    rw [bind_apply,pause_stopped passed]
    exact .stopped _ _

end Watching

namespace Effect

variable {τ : Type} [Naming τ] {S : Scope τ} {w v : World (SessionRef → τ)}

/-- A script that keeps to the session runs alike; one constructor of scripts after the other. -/
theorem likewise_interpret {respond respond' : Call → Effect (SessionRef → τ) Reply}
    (responds : ∀ c w v, S.Along w v → c.Within S.ref (S.known w) → S.Roomy w →
      S.Likewise (naming c.gives) (respond c) (respond' c) w v)
    {script : Script (SessionRef → τ)} {known : Set Name} {gives : Reply → List Name}
    (confined : script.Confined S.ref known gives) (along : S.Along w v) (larger : known ⊆ S.known w) :
    S.Likewise (naming gives) (interpretUntil crowded respond script) (interpret respond' script) w v := by
  induction confined generalizing w v with
  | done given =>
    exact .behind_pause along fun _ => likewise_pure along fun n member => larger (given n member)
  | fail failure => exact .behind_pause along fun _ => likewise_fail along failure
  | look same rest ih =>
    refine .behind_pause along fun _ => .step (store_apply w) (store_apply v) subset_rfl ?_
    rw [← same _ larger _ _ along.within.store along.agrees]
    exact ih _ larger _ along.within.store along subset_rfl
  | retrieve rest ih =>
    refine .behind_pause along fun _ => .step rfl rfl subset_rfl ?_
    dsimp only
    rw [← along.memory]
    exact ih _ larger _ along.within.memory along subset_rfl
  | remember names rest ih =>
    refine .behind_pause along fun _ => .step rfl rfl subset_rfl (.behind_pause along fun _ => ?_)
    have along := along.remember fun n member => larger (names n member)
    exact .step rfl rfl (fun _ known => known) (ih along larger)
  | define body rest _ ih =>
    refine .behind_pause along fun _ => .step rfl rfl subset_rfl ?_
    obtain ⟨made,known,grown⟩ := along.withCode fun more m => body more (larger.trans m)
    refine .step rfl rfl grown ?_
    rw [← along.level.code]
    exact ih _ (larger.trans grown) _ known made subset_rfl
  | call within rest ih =>
    refine .behind_pause along fun roomy => ?_
    refine (responds _ _ _ along (within.mono larger) roomy).bind fun reply _ _ along grown named => ?_
    exact ih _ (larger.trans grown) reply named along subset_rfl
  | attempt within returned failed tried ih ih' =>
    refine .behind_pause along fun _ => (tried along larger).attempt.bind
      fun result _ _ along grown named => ?_
    cases result with
    | ok reply => exact ih _ (larger.trans grown) reply named along subset_rfl
    | error failure => exact ih' _ (larger.trans grown) failure along subset_rfl

variable {perform perform' : Perform (SessionRef → τ)} (performs : S.Performs perform perform')
include performs

theorem likewise_taskUntil {task : Task} (along : S.Along w v) (within : task.Within S.ref (S.known w))
    (roomy : S.Roomy w) :
    S.Likewise nameless (taskUntil crowded perform task) (ofTask perform' task) w v := by
  cases task with
  | run code how =>
    refine .step rfl rfl subset_rfl ?_
    rw [← along.code code within.1]
    obtain ⟨body,defined,confines⟩ := along.within.code code within.1
    rw [defined]
    have interpreted := likewise_interpret
      (fun c _ _ along within roomy => likewise_answer performs along within roomy)
      (confines _ subset_rfl how within.2) along subset_rfl
    exact interpreted.mono (fun _ _ _ ends => ⟨ends.1,ends.2.1,trivial⟩) fun _ _ ends => ends
  | deliver filter handle ref event =>
    obtain ⟨owner,rfl,known⟩ := within
    exact (likewise_deliver performs along filter owner known fun _ => roomy).replies
  | fire ref event =>
    obtain ⟨rfl,known⟩ := within
    exact (likewise_fire performs along known fun _ => roomy).replies
  | drain processor ref =>
    obtain rfl := within
    exact (likewise_drain performs along processor roomy).replies
  | clear ref =>
    obtain rfl := within
    exact (likewise_clear performs along).replies
  | failPending ref dropped =>
    obtain rfl := within
    exact (likewise_failPending performs along roomy dropped).andThen
      fun _ _ _ along _ => likewise_pure along trivial

omit performs in
theorem performUntil_performs (fuel : Nat) :
    S.Performs (performUntil crowded fuel) (performWith fuel) := by
  induction fuel with
  | zero => exact fun _ w _ _ _ => .stopped w _
  | succ fuel ih =>
    intro task w v along within
    exact .behind_pause along fun roomy => likewise_taskUntil ih along within roomy

end Effect
end SessionPipeline
