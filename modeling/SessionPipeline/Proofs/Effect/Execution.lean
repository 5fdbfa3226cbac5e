import SessionPipeline.Proofs.Chain.Editing
import SessionPipeline.Proofs.Effect.Agreement
import SessionPipeline.Proofs.Effect.Moment

/-! Events, calls, scripts and tasks keep every contract that allows quiet steps and listeners, however
deep tasks are nested, if edits of chains do. So they do only what may become of a world, up to any
moment at which they are stopped. -/
namespace SessionPipeline

open World

/-- A call that edits no chain, sends no event and has nothing to do with code. -/
def Call.plain : Call → Bool
  | .add .. | .remove .. | .removeFilter .. | .replace .. | .clear _ | .addAll .. => false
  | .fire .. | .forward .. | .write .. | .close _ | .flush .. | .removeSession .. => false
  | .complete .. | .listen .. => false
  | .createFilter .. | .validateWith .. | .createWith .. | .configure _ => false
  | _ => true

/-- A call that lays hands on the name that a logging filter keeps. -/
def Call.renames : Call → Bool
  | .setAttribute _ (.entryName _) _ | .removeAttribute _ (.entryName _) => true
  | _ => false

def Call.edits : Call → Bool
  | .add .. | .remove .. | .removeFilter .. | .replace .. | .clear _ | .addAll .. => true
  | _ => false

def Task.Admitted {σ : Type} (terms : Terms) (w : World σ) : Task → Prop
  | .deliver filter handle ref event => w.Admits terms ref event ∧ w.Feeds terms filter handle ref
  | .fire ref event => w.Admits terms ref event
  | .clear ref => terms.edits ref
  | _ => True

namespace Effect

variable {σ : Type}

section Discreet

variable {R : Contract σ} [Discreet R] {perform : Perform σ}

theorem keeping_unit {m : Effect σ Unit} (keeping : Keeping R m) :
    Keeping R (do m; return Reply.unit : Effect σ Reply) := keeping.bind fun _ => keeping_pure _

theorem plain_keeps_discreet {c : Call} (plain : c.plain = true) (nameless : c.renames = false) {w : World σ}
    (fits : c.Fits R.terms w) : Meets R w (ofCall perform c) w := by
  cases c with
  | note note => exact keeping_unit (keeping_observe rfl) w
  | print stderr line => exact keeping_unit (keeping_observe rfl) w
  | newFilter filter => exact (keeping_makeFilter filter).bind (fun _ => keeping_pure _) w
  | newHandler handler =>
    have pushes : Keeping R (modifyStore fun s =>
        { s with handlers := s.handlers.push handler } : Effect σ Unit) :=
      keeping_of_quiet fun w => ⟨(),_,rfl,.handler w handler,fun _ _ => rfl⟩
    exact keeping_store.bind (fun s => pushes.bind fun _ => keeping_pure _) w
  | newProcessor processor =>
    have pushes : Keeping R (modifyStore fun s =>
        { s with processors := s.processors.push processor } : Effect σ Unit) :=
      keeping_of_quiet fun w => ⟨(),_,rfl,.processor w processor,fun _ _ => rfl⟩
    exact keeping_store.bind (fun s => pushes.bind fun _ => keeping_pure _) w
  | newSession handler processor capacity allocation =>
    exact (keeping_newSession handler processor capacity allocation).bind (fun _ => keeping_pure _) w
  | setAttribute ref key value =>
    refine keeping_unit (keeping_setAttribute ref value fits fun f same => ?_) w
    subst same
    cases nameless
  | removeAttribute ref key =>
    refine (keeping_session ref).bind (fun _ => (keeping_removeAttribute ref fun f same => ?_).bind
      fun _ => keeping_pure _) w
    subst same
    cases nameless
  | pollQueue ref => exact (keeping_handOver fits).bind (fun _ => keeping_pure _) w
  | newFuture => exact keeping_newFuture.bind (fun _ => keeping_pure _) w
  | newRequest message future =>
    refine (newRequest_keeps fun ref within id has => ?_).bind fun _ _ before =>
      (keeping_pure _).from before
    exact .inl (fits ref within id has)
  | wrapRequest inner message =>
    exact (keeping_wrapRequest inner message).bind (fun _ => keeping_pure _) w
  | setLevel filter event level => exact keeping_unit (keeping_settings filter _) w
  | setAllLevels filter level => exact keeping_unit (keeping_settings filter _) w
  | setGlobalLevel level => exact keeping_unit (keeping_setGlobalLevel level) w
  | log logger level text => exact keeping_unit (keeping_log logger level text) w
  | openFactories => exact keeping_unit keeping_openFactories w
  | registerBuiltIn =>
    exact keeping_openFactories.bind (fun _ => keeping_unit (keeping_registerAll _)) w
  | register name factory =>
    exact keeping_openFactories.bind (fun _ => (keeping_register name factory).bind
      fun _ => keeping_pure _) w
  | unregister name =>
    exact keeping_openFactories.bind (fun _ => (keeping_unregister name).bind
      fun _ => keeping_pure _) w
  | loadConfig path content => exact (keeping_loadConfig path content).bind (fun _ => keeping_pure _) w
  | _ => cases plain

omit [Discreet R] in
theorem renaming_keeps [Lawful R] {c : Call} (renames : c.renames = true) {w : World σ}
    (fits : c.Fits R.terms w) : Meets R w (ofCall perform c) w := by
  cases c with
  | setAttribute ref key value =>
    have sets : Keeping R (modifySession ref fun s => s.setAttribute key value : Effect σ Unit) :=
      keeping_of_ok fun w => ⟨(),_,rfl,Lawful.quiet (.attributed w ref key value fits)⟩
    exact keeping_unit sets w
  | removeAttribute ref key =>
    have removes : Keeping R (modifySession ref fun s => s.removeAttribute key : Effect σ Unit) :=
      keeping_of_ok fun w => ⟨(),_,rfl,Lawful.quiet (.unattributed w ref key)⟩
    exact (keeping_session ref).bind (fun _ => removes.bind fun _ => keeping_pure _) w
  | _ => cases renames

omit [Discreet R] in
theorem plain_keeps [Lawful R] {c : Call} (plain : c.plain = true) {w : World σ}
    (fits : c.Fits R.terms w) : Meets R w (ofCall perform c) w := by
  cases renames : c.renames with
  | true => exact renaming_keeps renames fits
  | false => exact plain_keeps_discreet plain renames fits

theorem keeping_needSessions (refs : List SessionRef) :
    Keeping R (needSessions refs : Effect σ Unit) := by
  refine keeping_store.bind fun s => ?_
  split
  · exact keeping_fail _
  · exact keeping_pure ()

/-- Beyond the last filter there are the handler, the requests that a closed session fails, and the
processor. -/
theorem keeping_terminate {ref : SessionRef} {event : Event} (other : ∀ id, event ≠ .filterWrite id)
    (handled : event.outbound = false → Keeping R (callHandler perform ref event))
    (closes : event = .sessionClosed → Keeping R (enterClosed perform ref))
    (removes : event.outbound = true →
      Keeping R (do removeSession perform (← session ref).processor ref)) :
    Keeping R (terminate perform ref event) := by
  unfold terminate
  split
  · exact (keeping_enterOpened ref).bind fun _ => handled rfl
  · exact (closes rfl).bind fun _ => handled rfl
  · have counts : Keeping R (modifySession ref fun s =>
        { s with readMessages := s.readMessages + 1 } : Effect σ Unit) :=
      keeping_of_quiet fun w => ⟨(),_,rfl,.received w ref,sameNames_mapSession w ref _ fun _ _ => rfl⟩
    exact counts.bind fun _ => handled rfl
  · have counts : Keeping R (modifySession ref fun s =>
        { s with writtenMessages := s.writtenMessages + 1 } : Effect σ Unit) :=
      keeping_of_quiet fun w => ⟨(),_,rfl,.sent w ref,sameNames_mapSession w ref _ fun _ _ => rfl⟩
    exact counts.bind fun _ => handled rfl
  · rename_i id
    exact absurd rfl (other id)
  · exact removes rfl
  · rename_i inbound _ _ _ write close
    refine handled ?_
    cases event <;> first | rfl | exact absurd rfl (write _) | exact absurd rfl close

theorem passing_end {c : Chain} {handle : Handle} {event : Event}
    (last : c.following event.outbound handle.entry = Chain.exit event.outbound) (ref : SessionRef) :
    passing c handle ref event = .arrived handle ref event := by
  rw [passing,last]
  exact if_pos (beq_self_eq_true _)

theorem passing_entry {c : Chain} {handle : Handle} {event : Event} {id : EntryId}
    (next : c.following event.outbound handle.entry = id) (onward : id ≠ Chain.exit event.outbound)
    (ref : SessionRef) :
    passing c handle ref event = .delivered handle (c.handle handle.owner id) ref event := by
  rw [passing,next]
  exact if_neg (by simpa using onward)

section Forward

variable {perform : Perform σ} {w : World σ} {handle : Handle} {c : Chain} {ref : SessionRef}
  {event : Event} (here : w.store.chain handle.owner = c)
include here

/-- A handle whose entry is gone forwards nothing. -/
theorem forward_stale (stale : c.isCurrent handle = false) :
    forward perform handle ref event w = logChain handle.owner .warning
      (event.kind.name ++ " dropped, forwarded from a removed filter") w := by
  unfold forward
  rw [bind_of_ok (chain_apply _ w),here,stale]
  rfl

variable (current : c.isCurrent handle = true)
include current

theorem forward_end (last : c.following event.outbound handle.entry = Chain.exit event.outbound) :
    forward perform handle ref event w = (do
      observe (.arrived handle ref event)
      terminate perform ref event : Effect σ Unit) w := by
  unfold forward
  rw [bind_of_ok (chain_apply _ w),here,if_pos current,passing_end last]
  unfold beyond
  dsimp only
  rw [last,beq_self_eq_true,if_pos rfl]

theorem forward_onward {id : EntryId} (next : c.following event.outbound handle.entry = id)
    (onward : id ≠ Chain.exit event.outbound) :
    forward perform handle ref event w = (do
      observe (.delivered handle (c.handle handle.owner id) ref event)
      match (c.slot id).filter with
      | some filter => do
        let _ ← perform (.deliver filter (c.handle handle.owner id) ref event)
      | none => pure () : Effect σ Unit) w := by
  unfold forward
  rw [bind_of_ok (chain_apply _ w),here,if_pos current,passing_entry next onward]
  unfold beyond
  dsimp only
  rewrite [next,beq_eq_false_iff_ne.mpr onward,if_neg Bool.false_ne_true]
  rfl

theorem forward_entry {id : EntryId} {filter : FilterId}
    (next : c.following event.outbound handle.entry = id) (onward : id ≠ Chain.exit event.outbound)
    (holding : (c.slot id).filter = some filter) :
    forward perform handle ref event w = (do
      observe (.delivered handle (c.handle handle.owner id) ref event)
      let _ ← perform (.deliver filter (c.handle handle.owner id) ref event) : Effect σ Unit) w := by
  rw [forward_onward here current next onward,holding]

end Forward

section Passing

variable {w₀ w : World σ} {handle : Handle} {event : Event}
  (current : (w.store.chain handle.owner).isCurrent handle = true) (related : R.ended w₀ w)
include current related

theorem delivered_related {id : EntryId}
    (next : (w.store.chain handle.owner).following event.outbound handle.entry = id)
    (onward : id ≠ Chain.exit event.outbound) (ref : SessionRef) : R.ended w₀ (w.record
      (.delivered handle ((w.store.chain handle.owner).handle handle.owner id) ref event)) := by
  have passed := passing_entry next onward ref
  refine Discreet.trans related (Discreet.quiet ?_ fun _ _ => rfl)
  rw [← passed]
  exact .passed w handle ref event current fun _ => passed ▸ nofun

/-- An event that arrives at the end of a chain is told of and dealt with there; a request is queued. -/
theorem arrival_keeps
    (last : (w.store.chain handle.owner).following event.outbound handle.entry =
      Chain.exit event.outbound) {ref : SessionRef} (admits : w.Admits R.terms ref event)
    (handled : event.outbound = false → Keeping R (callHandler perform ref event))
    (closes : event = .sessionClosed → Keeping R (enterClosed perform ref))
    (flushes : event.outbound = true → Keeping R (do flush perform (← session ref).processor ref))
    (removes : event.outbound = true →
      Keeping R (do removeSession perform (← session ref).processor ref)) :
    Meets R w₀ (do observe (.arrived handle ref event); terminate perform ref event) w := by
  rw [meets_bind_of_ok (observe_apply _ w)]
  by_cases write : ∃ id, event = .filterWrite id
  · obtain ⟨id,rfl⟩ := write
    unfold terminate
    dsimp only
    rw [meets_bind_of_ok (modifySession_apply ref _ _)]
    exact (flushes rfl).from (Discreet.trans related (Discreet.quiet (.queued w handle ref id current last
      admits) (sameNames_mapSession _ ref _ fun _ _ => rfl)))
  · rw [not_exists] at write
    refine (keeping_terminate write handled closes removes).from
      (Discreet.trans related (Discreet.quiet ?_ fun _ _ => rfl))
    have passed := passing_end last ref
    rw [← passed]
    refine .passed w handle ref event current fun id queued => ?_
    rw [passed] at queued
    exact write id (by injection queued)

end Passing

/-- What it performs keeps the contract, if it is asked as code that keeps to the terms asks. -/
abbrev Performs (R : Contract σ) (perform : Perform σ) : Prop :=
  ∀ task w, Task.Admitted R.terms w task → Meets R w (perform task) w

/-- Edits of chains that may be edited keep the contract. -/
structure Edits (R : Contract σ) (perform : Perform σ) : Prop where
  calls : ∀ {c : Call} {w : World σ}, c.edits = true → c.Fits R.terms w →
    (∀ ref ∈ c.sessions, ref < w.store.sessions.size) → Meets R w (ofCall perform c) w
  clears : ∀ {ref : SessionRef}, R.terms.edits ref → Keeping R (clear perform ref)

end Discreet

section Performing

variable {R : Contract σ} [Receptive R] {perform : Perform σ} (performs : Performs R perform)
include performs

omit [Receptive R] in
theorem keeping_run (code : CodeId) (how : Invocation) : Keeping R (perform (.run code how)) :=
  fun w => performs _ w trivial

theorem tells_of_performs : Tells R perform := tells_of_runs (keeping_run performs)

theorem keeping_listen (future : FutureId) (listener : CodeId) :
    Keeping R (listen perform future listener) := by
  intro w
  unfold listen
  rw [meets_bind_of_ok (store_apply w)]
  split
  · exact keeping_notify (keeping_run performs _ _) w
  · rename_i waiting
    exact Receptive.awaited w future listener (by simpa using waiting)

theorem keeping_callHandler (ref : SessionRef) (event : Event) :
    Keeping R (callHandler perform ref event) := by
  refine keeping_store.bind fun s => (keeping_session ref).bind fun _ => ?_
  split
  · exact keeping_pure ()
  · exact keeping_runCode (keeping_run performs _ _)

theorem keeping_flush (processor : ProcessorId) (ref : SessionRef) :
    Keeping R (flush perform processor ref) := by
  refine keeping_store.bind fun s => ?_
  split
  · exact Keeping.bind (fun w => performs _ w trivial) fun _ => keeping_pure ()
  · exact keeping_runCode (keeping_run performs _ _)

theorem keeping_removeSession (processor : ProcessorId) (ref : SessionRef) :
    Keeping R (removeSession perform processor ref) := by
  refine keeping_store.bind fun s => ?_
  split
  · refine (keeping_session ref).bind fun _ => ?_
    split
    · exact Keeping.bind (fun w => performs _ w (admits_of_ne (by nofun) w ref))
        fun _ => keeping_pure ()
    · exact keeping_pure ()
  · exact keeping_runCode (keeping_run performs _ _)

theorem forward_keeps {handle : Handle} {ref : SessionRef} {event : Event} {w : World σ}
    (admits : w.Admits R.terms ref event) (own : R.terms.tidy → handle.owner = ref) :
    Meets R w (forward perform handle ref event) w := by
  by_cases current : (w.store.chain handle.owner).isCurrent handle = true
  · by_cases last : (w.store.chain handle.owner).following event.outbound handle.entry =
      Chain.exit event.outbound
    · unfold Meets ends
      rw [forward_end rfl current last]
      exact arrival_keeps current (Discreet.refl w) last admits
        (fun _ => keeping_callHandler performs ref event)
        (fun _ => keeping_enterClosed (tells_of_performs performs) fun _ w => performs _ w trivial)
        (fun _ => (keeping_session ref).bind fun _ => keeping_flush performs _ ref)
        (fun _ => (keeping_session ref).bind fun _ => keeping_removeSession performs _ ref)
    · generalize next : (w.store.chain handle.owner).following event.outbound handle.entry = id at last
      let target := (w.store.chain handle.owner).handle handle.owner id
      have told := delivered_related (R := R) current (Discreet.refl w) next last ref
      unfold Meets ends
      rw [forward_onward rfl current next last,bind_of_ok (observe_apply _ w)]
      cases holding : ((w.store.chain handle.owner).slot id).filter with
      | none => exact (keeping_pure ()).from told
      | some filter =>
        have admitted : (Task.deliver filter target ref event).Admitted R.terms
            (w.record (.delivered handle target ref event)) := by
          refine ⟨admits.mono (Nat.le_refl _) (Nat.le_refl _),fun tidy => ?_⟩
          obtain rfl := own tidy
          exact ⟨rfl,⟨handle,event.outbound,current,next,last⟩,holding⟩
        exact ((performs _ _ admitted).from told).bind fun _ _ before => (keeping_pure ()).from before
  · unfold Meets ends
    rw [forward_stale rfl (Bool.eq_false_iff.mpr current)]
    exact keeping_logChain _ _ _ w

theorem fire_keeps {ref : SessionRef} {event : Event} {w : World σ}
    (admits : w.Admits R.terms ref event) : Meets R w (fire perform ref event) w :=
  forward_keeps performs admits fun _ => rfl

omit performs [Receptive R] in
theorem settle_count (w : World σ) (id : RequestId) (outcome : Outcome) (processor : ProcessorId) :
    (w.mapStore fun s => { s with processors := s.processors.modify processor Processor.count }).settle
        id outcome =
      (w.settle id outcome).mapStore fun s =>
        { s with processors := s.processors.modify processor Processor.count } := by
  have same : (w.mapStore fun s => { s with
      processors := s.processors.modify processor Processor.count }).store.request id =
    w.store.request id := rfl
  rw [settle,same,settle]
  cases (w.store.request id).future with
  | none => rfl
  | some future =>
    change (if (w.store.future future).isDone then _ else _) =
      (if (w.store.future future).isDone then _ else _ : World σ).mapStore _
    split <;> rfl

theorem keeping_drain (processor : ProcessorId) (ref : SessionRef) :
    Keeping R (drain perform processor ref) := by
  intro w
  unfold drain
  cases found : (w.store.session ref).queue.poll with
  | none =>
    rw [meets_bind_of_ok (pollQueue_none found)]
    exact Discreet.refl w
  | some pair =>
    have took (outcome : Outcome) : R.ended w _ := Discreet.quiet (.took w ref found outcome)
      (sameNames_took w ref _ _ _)
    have counts : R.ended w (((w.dequeue ref pair.1 pair.2).mapStore fun s => { s with
        processors := s.processors.modify processor Processor.count }).settle pair.1 .written) := by
      rw [settle_count]
      exact Discreet.trans (took .written) (Discreet.quiet (.flushed _ processor) fun _ _ => rfl)
    rw [meets_bind_of_ok (pollQueue_some found)]
    dsimp only
    rw [meets_bind_of_ok (modifyStore_apply _ _)]
    refine (completeRequest_keeps (tells_of_performs performs) counts rfl).bind fun _ w₁ before => ?_
    refine ((fire_keeps performs (admits_of_ne (by nofun) w₁ ref)).from before).bind
      fun _ w₂ fired => ?_
    exact ((performs (.drain processor ref) w₂ trivial).from fired).bind fun _ _ later =>
      (keeping_pure ()).from later

theorem write_keeps {ref : SessionRef} (message : Message) {w : World σ}
    (present : ref < w.store.sessions.size) : Meets R w (write perform ref message) w := by
  unfold write
  have made : R.ended w _ := Discreet.quiet (.future w) fun _ _ => rfl
  have named : newFuture w = .ok w.store.futures.size
      (w.mapStore fun s => { s with futures := s.futures.push {} }) := rfl
  rw [meets_bind_of_ok named,meets_bind_of_ok (session_apply ref _)]
  split
  · refine Keeping.from ?_ made
    exact (keeping_log _ _ _).bind fun _ =>
      (keeping_complete (tells_of_performs performs) _ _).bind fun _ => keeping_pure _
  · rw [meets_bind_of_ok (newRequest_apply _ _)]
    have requested : R.ended w _ := Discreet.trans made (Discreet.quiet (.request _
      { message := message, future := some w.store.futures.size } fun _ _ future same => .inl (by
        cases same
        simp [mapStore])) fun _ _ => rfl)
    refine ((fire_keeps performs fun id same _ => ?_).from requested).bind fun _ _ later =>
      (keeping_pure _).from later
    cases same
    exact ⟨present,by simp [mapStore]⟩

theorem close_keeps {ref : SessionRef} {w : World σ} (present : ref < w.store.sessions.size) :
    Meets R w (close perform ref) w := by
  unfold close
  rw [meets_bind_of_ok (session_apply ref w)]
  split
  · exact Discreet.refl w
  · rename_i going
    rw [meets_bind_of_ok (log_apply _ _ _ w),meets_bind_of_ok (modifySession_apply ref _ _),
      meets_bind_of_ok (observe_apply _ _)]
    refine (fire_keeps performs (admits_of_ne (by nofun) _ ref)).from ?_
    exact Discreet.trans (Discreet.quiet (.logged w _ _ _ _) fun _ _ => rfl)
      (Discreet.quiet (.closing _ ref present (Bool.eq_false_iff.mpr going))
        (sameNames_mapSession _ ref (·.enter .closing) fun _ _ => rfl))

theorem deliver_keeps {id : FilterId} {handle : Handle} {ref : SessionRef} {event : Event}
    {w : World σ} (admits : w.Admits R.terms ref event) (fed : w.Feeds R.terms id handle ref) :
    Meets R w (deliver perform id handle ref event) w :=
  (agrees_react (fun _ _ _ related admits' =>
      ⟨rfl,(forward_keeps performs admits' fun tidy => (fed tidy).1).from related⟩) rfl
    (fun _ related _ _ _ => ⟨rfl,(keeping_runCode (keeping_run performs _ _)).from related⟩)
    (Discreet.refl w) admits fed).2

/-- Calls that edit no chain. -/
theorem unediting_keeps_discreet {c : Call} {w : World σ} (other : c.edits = false) (nameless : c.renames = false)
    (fits : c.Fits R.terms w) (named : ∀ ref ∈ c.sessions, ref < w.store.sessions.size) :
    Meets R w (ofCall perform c) w := by
  have runs := keeping_run performs
  have finish (reply : Reply) : Keeping R (pure reply : Effect σ Reply) := keeping_pure reply
  by_cases plain : c.plain = true
  · exact plain_keeps_discreet plain nameless fits
  cases c with
  | fire ref event =>
    have present := named ref (by simp [Call.sessions])
    exact (fire_keeps performs fun id same within => ⟨present,fits id same within⟩).bind
      fun _ _ => (finish _).from
  | forward handle ref event =>
    have present := named ref (by simp [Call.sessions])
    exact (forward_keeps performs (fun id same within => ⟨present,fits.1 id same within⟩) fits.2).bind
      fun _ _ => (finish _).from
  | write ref message =>
    have present := named ref (by simp [Call.sessions])
    exact (write_keeps performs message present).bind fun _ _ => (finish _).from
  | close ref =>
    have present := named ref (by simp [Call.sessions])
    exact (close_keeps performs present).bind fun _ _ => (finish _).from
  | flush processor ref => exact keeping_unit (keeping_flush performs processor ref) w
  | removeSession processor ref => exact keeping_unit (keeping_removeSession performs processor ref) w
  | complete future outcome =>
    exact (keeping_complete (tells_of_performs performs) future outcome).bind (fun _ => finish _) w
  | listen future listener => exact keeping_unit (keeping_listen performs future listener) w
  | createFilter type config =>
    exact keeping_openFactories.bind (fun _ => (keeping_createFilter runs type config).bind
      fun _ => finish _) w
  | validateWith factory config =>
    exact (keeping_validateWith runs factory config).bind (fun _ => finish _) w
  | createWith factory config =>
    exact (keeping_createWith runs factory config).bind (fun _ => finish _) w
  | configure config => exact (keeping_configure runs config).bind (fun _ => finish _) w
  | _ => first | exact absurd rfl plain | cases other

omit performs in
/-- What is done for sessions that must be there is done only where they are. -/
theorem needed_keeps {α : Type} {refs : List SessionRef} {next : Unit → Effect σ α} {w : World σ}
    (rest : (∀ ref ∈ refs, ref < w.store.sessions.size) → Meets R w (next ()) w) :
    Meets R w (needSessions refs >>= next) w := by
  unfold needSessions
  rw [meets_bind,ends_bind_of_ok (store_apply w)]
  split
  · exact Discreet.refl w
  · rename_i present
    simp only [Bool.not_eq_true,Bool.not_eq_false',List.all_eq_true,decide_eq_true_eq] at present
    exact rest present

/-- Tasks that run no code of an application. -/
theorem ofTask_keeps {task : Task} {w : World σ} (other : ∀ code how, task ≠ .run code how)
    (clears : ∀ ref, task = .clear ref → Keeping R (clear perform ref))
    (admitted : task.Admitted R.terms w) : Meets R w (ofTask perform task) w := by
  cases task with
  | run code how => exact absurd rfl (other code how)
  | deliver filter handle ref event =>
    exact (deliver_keeps performs admitted.1 admitted.2).bind fun _ _ => (keeping_pure _).from
  | fire ref event =>
    exact (fire_keeps performs admitted).bind fun _ _ => (keeping_pure _).from
  | drain processor ref => exact keeping_unit (keeping_drain performs processor ref) w
  | clear ref => exact keeping_unit (clears ref rfl) w
  | failPending ref dropped =>
    exact (keeping_failPending (tells_of_performs performs) (fun _ w => performs _ w trivial)
      dropped).bind (fun _ => keeping_pure _) w

end Performing

section Editing

variable {R : Contract σ} [Permissive R] {perform : Perform σ} (performs : Performs R perform)
include performs

theorem unediting_keeps {c : Call} {w : World σ} (other : c.edits = false) (fits : c.Fits R.terms w)
    (named : ∀ ref ∈ c.sessions, ref < w.store.sessions.size) : Meets R w (ofCall perform c) w := by
  cases renames : c.renames with
  | true => exact renaming_keeps renames fits
  | false => exact unediting_keeps_discreet performs other renames fits named

variable (edits : Edits R perform)
include edits

theorem answer_keeps {c : Call} {w : World σ} (fits : c.Fits R.terms w) :
    Meets R w (answer perform c) w := by
  refine needed_keeps fun named => ?_
  cases editing : c.edits with
  | true => exact edits.calls editing fits named
  | false => exact unediting_keeps performs editing fits named

theorem taskUntil_keeps {stops : Watch σ} (abides : stops.Abides R.terms) {task : Task} {w : World σ}
    (admitted : task.Admitted R.terms w) : Meets R w (taskUntil stops perform task) w := by
  cases task with
  | run code how =>
    refine keeping_get.bind (fun v => ?_) w
    split
    · exact interpretUntil_keeps (fun c next w passed =>
        answer_keeps performs edits (abides c next w passed)) _
    · exact keeping_pure _
  | clear ref => exact keeping_unit (edits.clears admitted) w
  | _ => exact ofTask_keeps performs (by rintro _ _ ⟨⟩) (by rintro _ ⟨⟩) admitted

end Editing

section Watching

variable {R : Contract σ} [Permissive R] {stops : Watch σ} (abides : stops.Abides R.terms)
  (edits : ∀ perform, Performs R perform → Edits R perform)
include abides edits

theorem performUntil_keeps (fuel : Nat) : Performs R (performUntil stops fuel) := by
  induction fuel with
  | zero => exact fun _ w _ => Lawful.stop (Lawful.refl w)
  | succ fuel ih =>
    exact fun _ w admitted => .behind_pause (Lawful.refl w) fun _ =>
      taskUntil_keeps ih (edits _ ih) abides admitted

theorem keeping_script (fuel : Nat) (script : Script σ) :
    Keeping R (interpretUntil stops (answer (performUntil stops fuel)) script) := by
  have performs := performUntil_keeps abides edits fuel
  exact interpretUntil_keeps (fun c next w passed =>
    answer_keeps performs (edits _ performs) (abides c next w passed)) script

/-- What a run leaves behind that ends or is stopped is related to what it started in. -/
theorem until_keeps (fuel : Nat) (script : Script σ) (w : World σ) :
    R.stopped w (script.until stops fuel w) := by
  refine ends_leaves ?_
  exact ends_mono (keeping_script abides edits fuel script w) (fun _ _ => Lawful.stop)
    (fun _ _ => Lawful.stop) fun _ stopped => stopped

end Watching

theorem evolution_edits {terms : Terms} {perform : Perform σ}
    (performs : Performs (evolution terms) perform) : Edits (evolution terms) perform where
  calls {c w} editing fits named := by
    have runs := keeping_run performs
    have finish (reply : Reply) : Evolving terms (pure reply : Effect σ Reply) := keeping_pure reply
    cases c with
    | add ref position name filter =>
      have present := named ref (by simp [Call.sessions])
      exact (add_evolves runs present position name filter).bind fun _ _ => (finish _).from
    | remove ref name => exact (remove_keeps (removeEntry_keeps runs .removed) name).bind (fun _ => finish _) w
    | removeFilter ref filter =>
      exact (removeFilter_keeps (removeEntry_keeps runs .removed) filter).bind (fun _ => finish _) w
    | replace ref name filter =>
      exact (evolving_replaceWith runs evolving_putBack ref name filter).bind (fun _ => finish _) w
    | clear ref => exact keeping_unit (clear_keeps (removeEntry_keeps runs .removed) fun w => performs _ w fits) w
    | addAll ref entries =>
      have present := named ref (by simp [Call.sessions])
      exact (addAll_evolves runs present entries).bind fun _ _ => (finish _).from
    | _ => cases editing
  clears may := clear_keeps (removeEntry_keeps (keeping_run performs) .removed) fun w => performs _ w may

end Effect

/-- A run of a script that ends leaves a world that may have become of the one it started in. -/
theorem Script.execute_evolves {σ : Type} {fuel : Nat} {script : Script σ} {w w' : World σ}
    {ending : Ending} (ran : script.execute fuel w = (ending,w')) (ended : ending ≠ .outOfFuel) :
    w.Evolves .free w' := by
  have evolves := Effect.keeping_script (R := Effect.evolution .free) (Watch.abides_free .never)
    (fun _ => Effect.evolution_edits) fuel script w
  rw [Effect.interpretUntil_never,Effect.performUntil_never] at evolves
  unfold Effect.Meets Effect.ends at evolves
  unfold execute Effect.ofScript at ran
  split at ran
  · rename_i reply world result
    rw [result] at evolves
    obtain ⟨_,rfl⟩ := Prod.mk.inj ran
    exact evolves
  · rename_i failure world result
    rw [result] at evolves
    obtain ⟨_,rfl⟩ := Prod.mk.inj ran
    exact evolves
  · obtain ⟨out,_⟩ := Prod.mk.inj ran
    exact absurd out.symm ended

/-- So does a run that is stopped. -/
theorem Script.until_midway {σ : Type} {terms : Terms} {stops : Watch σ} (abides : stops.Abides terms)
    (fuel : Nat) (script : Script σ) (w : World σ) : w.Midway terms (script.until stops fuel w) :=
  Effect.until_keeps (R := Effect.evolution terms) abides (fun _ => Effect.evolution_edits) fuel script w

end SessionPipeline
