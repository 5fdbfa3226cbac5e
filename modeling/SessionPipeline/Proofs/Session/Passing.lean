import SessionPipeline.Proofs.Factory.Overlooking
import SessionPipeline.Proofs.Filter.Leftover

/-! Events on their way past an onlooker. Where the way leads to the onlooker it is handed on from there to
where the other chain hands it at once; so what filters pass on, what is written, drained and closed goes on
alike with the onlooker and without. -/
namespace SessionPipeline.Onlooker

open Effect

variable {σ α : Type} {O : Onlooker σ} {lags : Bool} {w v : World σ} {perform perform' : Perform σ}

/-- Tasks are performed alike; and a delivery to the onlooker, if the run is not stopped there, does what
it is in terms of tasks that are performed alike as well. -/
structure Backed (O : Onlooker σ) (lags : Bool) (perform perform' : Perform σ) : Prop where
  performs : O.Performs lags perform perform'
  hop : ∀ ref event, (lags = true ∧ ∀ w, ∃ u,
      perform (.deliver O.filter O.place ref event) w = .error .outOfFuel u) ∨
    ∃ deeper, O.Performs lags deeper perform' ∧ ∀ w, perform (.deliver O.filter O.place ref event) w =
      ofTask deeper (.deliver O.filter O.place ref event) w

/-- The onlooker passes an event on, and what it does before goes unseen. -/
theorem Along.deliver (along : O.Along w v) (perform : Perform σ) (ref : SessionRef) (event : Event) :
    ∃ u, O.Along u v ∧ u.store.chain O.ref = w.store.chain O.ref ∧
      deliver perform O.filter O.place ref event w = forward perform O.place ref event u := by
  obtain ⟨f,found,plain⟩ := along.plain
  have holds : w.store.filter O.filter = f := by
    simp [Store.filter,Array.getD_eq_getD_getElem?,found]
  cases f with
  | noop | adapter =>
    refine ⟨w,along,rfl,?_⟩
    rw [Effect.deliver,react,bind_of_ok (filter_apply _ w),holds]
  | logging settings =>
    obtain ⟨text,context,told⟩ := logEvent_apply O.filter settings ref event w
    have logged : O.Along (w.logged settings.logger (settings.level event.kind) text context) v :=
      along.aside (overlooks_logged ..) rfl
    refine ⟨_,logged,rfl,?_⟩
    rw [Effect.deliver,react,bind_of_ok (filter_apply _ w),holds]
    exact bind_of_ok told
  | codec | custom => cases plain

section Passing

variable {c c' : Chain} {h h' : Handle} {ref : SessionRef} {event : Event} {next : EntryId}
  (ahead : c.following event.outbound h.entry = next)
  (ahead' : c'.following event.outbound h'.entry = next)
  (target : c.handle h.owner next = c'.handle h'.owner next)
include ahead ahead' target

theorem seen_passing : O.seen (passing c h ref event) = O.seen (passing c' h' ref event) := by
  unfold passing
  simp only [ahead,ahead']
  split
  · rfl
  · simp only [seen,target]

/-- Events that have the same entry before them, or the same end, go on alike. -/
theorem likewise_pass (performs : O.Performs lags perform perform') (along : O.Along w v)
    (filter : (c.slot next).filter = (c'.slot next).filter) (apart : c'.handle h'.owner next ≠ O.place) :
    O.Likewise lags (do observe (passing c h ref event); beyond perform c h ref event)
      (do observe (passing c' h' ref event); beyond perform' c' h' ref event) w v := by
  refine .step rfl rfl ?_
  have seen : O.seen (passing c h ref event) = O.seen (passing c' h' ref event) :=
    seen_passing ahead ahead' target
  have along := along.record seen
  unfold beyond
  simp only [ahead,ahead',target,filter]
  split
  · exact likewise_terminate performs along ref event
  · split
    · exact likewise_performed performs along (.deliver _ (c'.handle h'.owner next) ref event) apart
    · exact likewise_pure along ()

end Passing

section Backed

variable (backed : O.Backed lags perform perform') (along : O.Along w v)
include backed along

/-- An event that comes to the onlooker goes on to where it goes without the onlooker. -/
theorem likewise_through {h : Handle} (owner : h.owner = O.ref) (ref : SessionRef) {event : Event}
    {next : EntryId} (elsewhere : next ≠ O.place.entry)
    (onward : (w.store.chain O.ref).following event.outbound O.place.entry = next)
    (ahead : (v.store.chain O.ref).following event.outbound h.entry = next) :
    O.Likewise lags (do let _ ← perform (.deliver O.filter O.place ref event))
      (do
        observe (passing (v.store.chain O.ref) h ref event)
        beyond perform' (v.store.chain O.ref) h ref event) w v := by
  have spliced := along.spliced
  rcases backed.hop ref event with ⟨rfl,stops⟩ | ⟨deeper,performs,delivers⟩
  · obtain ⟨u,stopped⟩ := stops w
    unfold Likewise
    rw [bind_apply,stopped]
    exact .stopped u _
  · obtain ⟨u,along,same,delivered⟩ := along.deliver deeper ref event
    have target : (w.store.chain O.ref).handle O.place.owner next =
        (v.store.chain O.ref).handle h.owner next := by
      rw [owner]
      exact spliced.handle elsewhere O.ref
    refine (likewise_pass onward ahead target performs along (spliced.filter elsewhere)
      fun equal => elsewhere (congrArg Handle.entry equal)).from ?_ rfl
    calc (do let _ ← perform (.deliver O.filter O.place ref event)) w
        = (do let _ ← ofTask deeper (.deliver O.filter O.place ref event)) w := by
          rw [bind_apply,delivers,← bind_apply]
      _ = deliver deeper O.filter O.place ref event w := by simp only [ofTask,bind_assoc,pure_bind,bind_pure_unit]
      _ = forward deeper O.place ref event u := delivered
      _ = _ := by
        unfold forward
        rw [bind_of_ok (chain_apply O.place.owner u)]
        have current : (u.store.chain O.place.owner).isCurrent O.place = true := by
          rw [show u.store.chain O.place.owner = w.store.chain O.ref from same]
          exact spliced.current
        rw [if_pos current,show u.store.chain O.place.owner = w.store.chain O.ref from same]

theorem likewise_forward {h : Handle} (apart : h ≠ O.place) (ref : SessionRef) (event : Event) :
    O.Likewise lags (forward perform h ref event) (forward perform' h ref event) w v := by
  by_cases own : h.owner = O.ref
  · have spliced := along.spliced
    have current : (w.store.chain O.ref).isCurrent h = (v.store.chain O.ref).isCurrent h := by
      refine spliced.isCurrent fun entry generation => apart ?_
      exact Handle.mk.injEq .. |>.mpr ⟨own,entry,generation⟩
    refine .step (chain_apply ..) (chain_apply ..) ?_
    rw [own,current]
    cases is : (v.store.chain O.ref).isCurrent h with
    | false => exact likewise_logChain along ..
    | true =>
      obtain ⟨elsewhere,same | ⟨via,onward⟩⟩ := spliced.way_of_current is event.outbound
      · refine likewise_pass same rfl ?_ backed.performs along (spliced.filter elsewhere) ?_
        · exact spliced.handle elsewhere _
        · exact fun equal => elsewhere (congrArg Handle.entry equal)
      · have here : (w.store.chain O.ref).handle O.ref O.place.entry = O.place := spliced.handle_place rfl
        have passed : passing (w.store.chain O.ref) h ref event = .delivered h O.place ref event := by
          unfold passing
          simp only [via,own,here,beq_eq_false_iff_ne.mpr (spliced.ne_exit event.outbound)]
          rfl
        have leads : beyond perform (w.store.chain O.ref) h ref event =
            (do let _ ← perform (.deliver O.filter O.place ref event)) := by
          unfold beyond
          simp only [via,own,here,spliced.holder,beq_eq_false_iff_ne.mpr (spliced.ne_exit event.outbound)]
          rfl
        have hidden : O.seen (.delivered h O.place ref event) = none := if_pos rfl
        have along := along.aside (overlooks_record hidden) rfl
        rw [passed,leads]
        exact (likewise_through backed along own ref elsewhere onward rfl).from rfl rfl
  · refine likewise_chain along own ?_
    split
    · refine likewise_pass rfl rfl rfl backed.performs along rfl fun equal => own ?_
      rw [Onlooker.ref,← equal]
      rfl
    · exact likewise_logChain along ..

/-- An event enters a chain at an end of it, where no onlooker is. -/
theorem likewise_fire (ref : SessionRef) (event : Event) :
    O.Likewise lags (fire perform ref event) (fire perform' ref event) w v := by
  refine likewise_forward backed along (fun equal => ?_) ref event
  have entry : Chain.entrance event.outbound = O.place.entry := congrArg Handle.entry equal
  have apart := along.spliced.ne_exit !event.outbound
  cases outbound : event.outbound <;> simp_all [Chain.entrance,Chain.exit]

theorem likewise_drain (processor : ProcessorId) (ref : SessionRef) :
    O.Likewise lags (drain perform processor ref) (drain perform' processor ref) w v := by
  refine (likewise_pollQueue along ref).bind fun polled _ _ along => ?_
  cases polled with
  | none => exact likewise_pure along ()
  | some id =>
    refine .bind (likewise_modifyStore along fun _ => ⟨rfl,rfl,rfl,rfl,rfl⟩) fun _ _ _ along => ?_
    refine (likewise_completeRequest backed.performs along id .written).bind fun _ _ _ along => ?_
    refine (likewise_fire backed along ref (.messageSent id)).bind fun _ _ _ along => ?_
    exact likewise_performed backed.performs along (.drain processor ref) trivial

theorem likewise_write (ref : SessionRef) (message : Message) :
    O.Likewise lags (write perform ref message) (write perform' ref message) w v := by
  refine (likewise_newFuture along).bind fun future _ _ along => likewise_session along ?_ fun _ => rfl
  split
  · refine (likewise_log along ..).bind fun _ _ _ along => ?_
    exact (likewise_complete backed.performs along future _).replies
  · refine (likewise_newRequest along _).bind fun id _ _ along => ?_
    exact (likewise_fire backed along ref (.filterWrite id)).replies

theorem likewise_close (ref : SessionRef) :
    O.Likewise lags (close perform ref) (close perform' ref) w v := by
  refine likewise_session along ?_ fun _ => rfl
  split
  · exact likewise_pure along ()
  · refine (likewise_log along ..).bind fun _ _ _ along => ?_
    refine .bind (likewise_modifySession along fun _ => ⟨rfl,rfl⟩) fun _ _ _ along => ?_
    exact (likewise_observe along _).bind fun _ _ _ along => likewise_fire backed along ref .filterClose

end Backed

/-- Every attribute is seen but the one in which the onlooker keeps its name. -/
theorem veil_attribute? {ref : SessionRef} {key : AttributeKey} (differs : ref = O.ref → key ≠ O.key)
    (s : Session) : (O.veil ref s).attribute? key = s.attribute? key := by
  by_cases own : ref = O.ref
  · simp only [Session.attribute?,veil,if_pos own]
    exact (lookup_filter _ key s.attributes).trans (if_neg (differs own))
  · rw [veil_of_ne own]

theorem veil_pendingOf (ref : SessionRef) (s : Session) (codec : FilterId) :
    (O.veil ref s).pendingOf codec = s.pendingOf codec := by
  have other : AttributeKey.pending codec ≠ O.key := nofun
  have seen := veil_attribute? (fun _ : ref = O.ref => other) s
  simp only [Session.pendingOf,Session.bytesAttribute?,seen]

section Codec

variable {onward onward' : Event → Effect σ Unit}
  (passes : ∀ event w v, O.Along w v → O.Likewise lags (onward event) (onward' event) w v)
  (along : O.Along w v)
include passes along

theorem likewise_forwardFrames (frames : List Bytes) :
    O.Likewise lags (forwardFrames onward frames) (forwardFrames onward' frames) w v := by
  induction frames generalizing w v with
  | nil => exact likewise_pure along ()
  | cons frame rest ih => exact (passes _ _ _ along).bind fun _ _ _ along => ih along

theorem likewise_receiveBytes (self : FilterId) (maximum : UInt64) (ref : SessionRef) (input : Bytes) :
    O.Likewise lags (receiveBytes onward self maximum ref input) (receiveBytes onward' self maximum ref input)
      w v := by
  have kept {w v : World σ} (along : O.Along w v) (rest : Bytes) :
      O.Likewise lags (keepPending self ref rest) (keepPending self ref rest) w v :=
    likewise_veiled along (veiled_setAttribute _ _ _) fun _ => rfl
  refine likewise_session along ?_ fun s => by simp only [veil_pendingOf]; rfl
  dsimp only
  split
  · exact (kept along _).bind fun _ _ _ along => likewise_forwardFrames passes along _
  · refine (likewise_log along ..).bind fun _ _ _ along => ?_
    refine (kept along _).bind fun _ _ _ along => ?_
    refine (likewise_forwardFrames passes along _).bind fun _ _ _ along => ?_
    exact passes _ _ _ along

theorem likewise_encodeRequest (maximum : UInt64) (ref : SessionRef) (id : RequestId) :
    O.Likewise lags (encodeRequest onward maximum ref id) (encodeRequest onward' maximum ref id) w v := by
  refine likewise_request along id ?_
  split
  · exact passes _ _ _ along
  · refine (likewise_ofExcept along _).bind fun encoded _ _ along => likewise_sessionId along ?_
    refine (likewise_log along ..).bind fun _ _ _ along => ?_
    exact (likewise_wrapRequest along id _).bind fun _ _ _ along => passes _ _ _ along

theorem likewise_codecEvent (self : FilterId) (writeMaximum readMaximum : UInt64) (ref : SessionRef)
    (event : Event) : O.Likewise lags (codecEvent onward self writeMaximum readMaximum ref event)
      (codecEvent onward' self writeMaximum readMaximum ref event) w v := by
  unfold codecEvent
  split
  · exact (likewise_discardPending along self ref).bind fun _ _ _ along => passes _ _ _ along
  · exact likewise_receiveBytes passes along self readMaximum ref _
  · exact likewise_request along _ (passes _ _ _ along)
  · exact likewise_encodeRequest passes along writeMaximum ref _
  · exact passes _ _ _ along

end Codec

theorem likewise_deliver (backed : O.Backed lags perform perform') (along : O.Along w v) (id : FilterId)
    {h : Handle} (apart : h ≠ O.place) (ref : SessionRef) (event : Event) :
    O.Likewise lags (deliver perform id h ref event) (deliver perform' id h ref event) w v := by
  have passes (event : Event) (w v : World σ) (along : O.Along w v) :
      O.Likewise lags (forward perform h ref event) (forward perform' h ref event) w v :=
    likewise_forward backed along apart ref event
  refine likewise_filter along id ?_
  cases w.store.filter id with
  | noop => exact passes event _ _ along
  | adapter => exact passes event _ _ along
  | logging settings =>
    obtain ⟨text,context,logged⟩ := logEvent_apply id settings ref event w
    obtain ⟨text',context',logged'⟩ := logEvent_apply id settings ref event v
    exact .step logged logged' (passes event _ _ (along.logged ..))
  | codec writeMaximum readMaximum =>
    exact likewise_codecEvent passes along id writeMaximum readMaximum ref event
  | custom label code => exact likewise_runCode backed.performs along code apart

end SessionPipeline.Onlooker
