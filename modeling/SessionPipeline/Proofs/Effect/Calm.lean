import SessionPipeline.Proofs.Effect.Execution

/-! Code that leaves chains alone and sends no events. While nothing but such code runs, everything
that decides which way an event takes stays as it is. -/
namespace SessionPipeline

/-- A call that edits no chain and sends no event, and that makes none but passive code listen. -/
def Call.Still (passive : CodeId → Prop) : Call → Prop
  | .complete .. => True
  | .listen _ listener => passive listener
  | c => c.plain = true

/-- A still call, or one that passes an event on in the same direction. -/
def Call.Onward (passive : CodeId → Prop) (handle : Handle) (ref : SessionRef) (outbound : Bool)
    (c : Call) : Prop :=
  c.Still passive ∨ ∃ event, event.outbound = outbound ∧ c = .forward handle ref event

def Filter.code? : Filter → Option CodeId
  | .custom _ code => some code
  | _ => none

namespace World

variable {σ : Type} {w w' : World σ} {passive : CodeId → Prop} {ref : SessionRef} {outbound : Bool}
  {terms : Terms}

/-- Code that edits no chain and sends nothing but what it passes on stands on the way of an event,
and at its end and among the listeners there is passive code. -/
structure Calm (passive : CodeId → Prop) (ref : SessionRef) (outbound : Bool) (w : World σ) : Prop where
  present : ref < w.store.sessions.size
  filters : ∀ e ∈ (w.store.chain ref).getAll ref, ∀ id, e.filter = some id →
    ∃ f, w.store.filters[id]? = some f ∧ ∀ code, f.code? = some code →
      ∃ body, w.code[code]? = some body ∧ ∀ event, event.outbound = outbound →
        (body (.event event ref e.handle)).Within (Call.Onward passive e.handle ref outbound)
  handler : outbound = false → ∃ h, w.store.handlers[(w.store.session ref).handler]? = some h ∧
    ∀ code, h = .custom code → passive code
  processor : outbound = true → ∃ code,
    w.store.processors[(w.store.session ref).processor]? = some (.custom code) ∧ passive code
  listeners : ∀ id, ∀ listener ∈ (w.store.future id).listeners, passive listener
  still : ∀ code, passive code → ∃ body, w.code[code]? = some body ∧
    ∀ how, (body how).Within (Call.Still passive)

structure Stays (w w' : World σ) : Prop where
  chain : w'.store.chain = w.store.chain
  sessions : w.store.sessions.size ≤ w'.store.sessions.size
  handler : ∀ r < w.store.sessions.size, (w'.store.session r).handler = (w.store.session r).handler
  processor : ∀ r < w.store.sessions.size,
    (w'.store.session r).processor = (w.store.session r).processor
  filters : ∀ (id : FilterId) (f : Filter), w.store.filters[id]? = some f →
    ∃ f', w'.store.filters[id]? = some f' ∧ f'.code? = f.code? ∧ f'.isCodec = f.isCodec
  handlers : ∀ (id : HandlerId) (h : Handler), w.store.handlers[id]? = some h →
    w'.store.handlers[id]? = some h
  processors : ∀ (id : ProcessorId) (code : CodeId), w.store.processors[id]? = some (.custom code) →
    w'.store.processors[id]? = some (.custom code)
  code : ∀ (id : CodeId) (body : Invocation → Script σ), w.code[id]? = some body →
    w'.code[id]? = some body

theorem Stays.refl (w : World σ) : w.Stays w where
  chain := rfl
  sessions := Nat.le_refl _
  handler _ _ := rfl
  processor _ _ := rfl
  filters _ f found := ⟨f,found,rfl,rfl⟩
  handlers _ _ found := found
  processors _ _ found := found
  code _ _ found := found

theorem Stays.trans {w₁ w₂ w₃ : World σ} (first : w₁.Stays w₂) (second : w₂.Stays w₃) :
    w₁.Stays w₃ where
  chain := second.chain.trans first.chain
  sessions := Nat.le_trans first.sessions second.sessions
  handler r old :=
    (second.handler r (Nat.lt_of_lt_of_le old first.sessions)).trans (first.handler r old)
  processor r old :=
    (second.processor r (Nat.lt_of_lt_of_le old first.sessions)).trans (first.processor r old)
  filters id f found := by
    obtain ⟨f',found',code,codec⟩ := first.filters id f found
    obtain ⟨f'',found'',code',codec'⟩ := second.filters id f' found'
    exact ⟨f'',found'',code'.trans code,codec'.trans codec⟩
  handlers id h found := second.handlers id h (first.handlers id h found)
  processors id code found := second.processors id code (first.processors id code found)
  code id body found := second.code id body (first.code id body found)

theorem getElem?_push_of_some {α : Type} {xs : Array α} {i : Nat} {x : α} (found : xs[i]? = some x)
    (y : α) : (xs.push y)[i]? = some x := by
  obtain ⟨inside,_⟩ := Array.getElem?_eq_some_iff.mp found
  rw [Array.getElem?_push,if_neg (Nat.ne_of_lt inside),found]

theorem stays_mapSession {change : Session → Session} (chain : ∀ s, (change s).chain = s.chain)
    (handler : ∀ s, (change s).handler = s.handler)
    (processor : ∀ s, (change s).processor = s.processor) (w : World σ) (r : SessionRef) :
    w.Stays (w.mapSession r change) := by
  refine ⟨?_,?_,?_,?_,?_,?_,?_,?_⟩
  · exact funext fun other => session_mapSession_eq (·.chain) chain w r other
  · exact Nat.le_of_eq (sessions_mapSession w r change).symm
  · exact fun other _ => session_mapSession_eq (·.handler) handler w r other
  · exact fun other _ => session_mapSession_eq (·.processor) processor w r other
  · exact fun _ f found => ⟨f,found,rfl,rfl⟩
  · exact fun _ _ found => found
  · exact fun _ _ found => found
  · exact fun _ _ found => found

theorem Quiet.stays (quiet : Quiet terms w w') : w.Stays w' := by
  have chain : w'.store.chain = w.store.chain := funext fun r => quiet.chain_eq r
  cases quiet with
  | define code => exact { Stays.refl w with code := fun _ _ found => getElem?_push_of_some found _ }
  | filter f =>
    exact { Stays.refl w with filters := fun _ g found => ⟨g,getElem?_push_of_some found _,rfl,rfl⟩ }
  | settings id change =>
    refine { Stays.refl w with filters := fun other f found => ?_ }
    simp only [mapStore,Array.getElem?_modify,found]
    split
    · exact ⟨_,rfl,by cases f <;> rfl,by cases f <;> rfl⟩
    · exact ⟨f,rfl,rfl,rfl⟩
  | handler h => exact { Stays.refl w with handlers := fun _ _ found => getElem?_push_of_some found _ }
  | processor p =>
    exact { Stays.refl w with processors := fun _ _ found => getElem?_push_of_some found _ }
  | flushed id =>
    refine { Stays.refl w with processors := fun other code found => ?_ }
    simp only [mapStore,Array.getElem?_modify,found]
    split <;> rfl
  | session =>
    have same (r : SessionRef) (old : r < w.store.sessions.size) (s : Session) :
        (w.begin s).store.session r = w.store.session r := by
      simp [begin,mapStore,Store.session,Array.getElem?_push,Nat.ne_of_lt old]
    exact { Stays.refl w with
      chain := chain
      sessions := by simp [begin,mapStore]
      handler := fun r old => congrArg Session.handler (same r old _)
      processor := fun r old => congrArg Session.processor (same r old _) }
  | queued handle r id =>
    have recorded : w.Stays (w.record (.arrived handle r (.filterWrite id))) := { Stays.refl w with }
    refine recorded.trans (stays_mapSession (fun s => ?_) (fun s => ?_) (fun s => ?_) _ r)
    all_goals rfl
  | took r found outcome =>
    obtain ⟨futures,settled⟩ := settle_eq (w.dequeue r _ _) _ outcome
    rw [settled]
    refine (stays_mapSession (fun s => ?_) (fun s => ?_) (fun s => ?_) w r).trans { Stays.refl _ with }
    all_goals rfl
  | polled r | closing r =>
    refine (stays_mapSession (fun s => ?_) (fun s => ?_) (fun s => ?_) w r).trans { Stays.refl _ with }
    all_goals rfl
  | attributed r | kept r | unattributed r | entered r | received r | sent r =>
    refine stays_mapSession (fun s => ?_) (fun s => ?_) (fun s => ?_) w r
    all_goals rfl
  | _ => exact { Stays.refl w with }

/-- Code that is once defined stays, whatever becomes of the world. -/
theorem Evolves.defined (evolves : w.Evolves terms w') {id : CodeId} {body : Invocation → Script σ}
    (found : w.code[id]? = some body) : w'.code[id]? = some body := by
  refine evolves.carries (P := fun w w' => w.code[id]? = some body → w'.code[id]? = some body)
    (fun _ there => there) (fun before after there => after (before there)) (fun step there => ?_)
    (fun _ _ _ there => there) (fun _ _ _ there => there) found
  cases step with
  | quiet quiet => exact quiet.stays.code _ body there
  | awaited => exact there
  | replaced => exact there

theorem decide_listeners (w : World σ) (future id : FutureId) (outcome : Outcome) :
    ((w.decide future outcome).store.future id).listeners ⊆ (w.store.future id).listeners := by
  intro listener member
  simp only [decide,mapStore,Store.future,Array.getD_eq_getD_getElem?,Array.getElem?_modify] at member ⊢
  split at member
  · cases found : w.store.futures[id]? with
    | none => simp_all
    | some f => simp_all
  · exact member

theorem Quiet.listeners (quiet : Quiet terms w w') (id : FutureId) :
    (w'.store.future id).listeners ⊆ (w.store.future id).listeners := by
  intro listener member
  cases quiet with
  | future =>
    simp only [mapStore,Store.future,Array.getD_eq_getD_getElem?,Array.getElem?_push] at member ⊢
    split at member
    · cases member
    · exact member
  | decided other outcome => exact decide_listeners w other id outcome member
  | @took r request queue found outcome =>
    unfold settle at member
    split at member
    · split at member
      · exact member
      · exact decide_listeners (w.dequeue r request queue) _ id outcome member
    · exact member
  | _ => exact member

theorem Calm.stays (calm : w.Calm passive ref outbound) (stays : w.Stays w')
    (listeners : ∀ id, ∀ listener ∈ (w'.store.future id).listeners, passive listener) :
    w'.Calm passive ref outbound where
  present := Nat.lt_of_lt_of_le calm.present stays.sessions
  filters e member id holds := by
    rw [stays.chain] at member
    obtain ⟨f,found,scripted⟩ := calm.filters e member id holds
    obtain ⟨f',found',same,_⟩ := stays.filters id f found
    refine ⟨f',found',fun code coded => ?_⟩
    rw [same] at coded
    obtain ⟨body,defined,onward⟩ := scripted code coded
    exact ⟨body,stays.code code body defined,onward⟩
  handler inbound := by
    obtain ⟨h,found,custom⟩ := calm.handler inbound
    rw [stays.handler ref calm.present]
    exact ⟨h,stays.handlers _ h found,custom⟩
  processor out := by
    obtain ⟨code,found,member⟩ := calm.processor out
    rw [stays.processor ref calm.present]
    exact ⟨code,stays.processors _ code found,member⟩
  listeners := listeners
  still code member := by
    obtain ⟨body,defined,within⟩ := calm.still code member
    exact ⟨body,stays.code code body defined,within⟩

end World

namespace Effect

open World

/-- To leave a calm world calm, and what is there. -/
@[reducible] def Calms {σ : Type} (passive : CodeId → Prop) (ref : SessionRef) (outbound : Bool) :
    Contract σ where
  terms := .free
  ended w w' := w.Calm passive ref outbound → w'.Calm passive ref outbound ∧ w.Stays w'
  stopped _ _ := True

variable {σ α : Type} {passive : CodeId → Prop} {ref : SessionRef} {outbound : Bool}

instance calms_lawful : Lawful (Calms passive ref outbound : Contract σ) where
  refl w calm := ⟨calm,.refl w⟩
  trans before after calm := by
    obtain ⟨middle,first⟩ := before calm
    obtain ⟨final,second⟩ := after middle
    exact ⟨final,first.trans second⟩
  quiet {w w'} quiet calm := by
    refine ⟨calm.stays quiet.stays fun id listener member => ?_,quiet.stays⟩
    exact calm.listeners id listener (quiet.listeners id member)
  stop _ := trivial
  after _ _ := trivial

/-- Only what happens in a calm world matters. -/
theorem meets_of_calm {m : Effect σ α} {w w' : World σ}
    (meets : w.Calm passive ref outbound → Meets (Calms passive ref outbound) w m w') :
    Meets (Calms passive ref outbound) w m w' := by
  by_cases calm : w.Calm passive ref outbound
  · exact meets calm
  · unfold Meets ends
    split
    · exact fun calm' => absurd calm' calm
    · exact fun calm' => absurd calm' calm
    · trivial

section Performing

variable {perform : Perform σ} (runs : ∀ code how, passive code →
  Keeping (Calms passive ref outbound) (perform (.run code how)))
include runs

theorem calms_tells : Tells (Calms passive ref outbound) perform := fun _ _ future before =>
  meets_of_calm fun calm => (keeping_runListeners fun listener member =>
    runs listener _ (calm.listeners future listener member)).from before

omit runs in
theorem calm_awaited {w : World σ} (calm : w.Calm passive ref outbound) (id : FutureId)
    {listener : CodeId} (member : passive listener) : (w.await id listener).Calm passive ref outbound := by
  refine { calm with listeners := fun other waiting listens => ?_ }
  have before := calm.listeners other
  simp only [await,mapStore,Store.future,Array.getD_eq_getD_getElem?,Array.getElem?_modify]
    at before listens
  split at listens
  · cases found : w.store.futures[other]? with
    | none =>
      rw [found] at listens
      cases listens
    | some f =>
      rw [found] at listens before
      rcases List.mem_append.mp listens with old | new
      · exact before waiting old
      · rw [List.mem_singleton.mp new]
        exact member
  · exact before waiting listens

theorem calms_listen (future : FutureId) {listener : CodeId} (member : passive listener) :
    Keeping (Calms passive ref outbound) (listen perform future listener) := by
  refine keeping_store.bind fun s => ?_
  split
  · exact keeping_notify (runs _ _ member)
  · exact fun w calm => ⟨calm_awaited calm future member,{ Stays.refl w with }⟩

theorem calms_ofCall {c : Call} (still : c.Still passive) :
    Keeping (Calms passive ref outbound) (ofCall perform c) := by
  cases c with
  | complete future outcome =>
    exact (keeping_complete (calms_tells runs) future outcome).bind fun _ => keeping_pure _
  | listen future listener => exact keeping_unit (calms_listen runs future still)
  | _ => exact fun w => plain_keeps still (Watch.fits_free _ w)

theorem calms_answer {c : Call} (still : c.Still passive) :
    Keeping (Calms passive ref outbound) (answer perform c) :=
  (keeping_needSessions _).bind fun _ => calms_ofCall runs still

end Performing

theorem run_apply {w : World σ} {code : CodeId} {body : Invocation → Script σ}
    (defined : w.code[code]? = some body) (fuel : Nat) (how : Invocation) :
    (performWith (fuel + 1) (.run code how) : Effect σ Reply) w =
      ofScript (performWith fuel) (body how) w := by
  rw [performWith,ofTask,bind_of_ok (get_apply w),defined]

/-- However deep it is run, passive code leaves a calm world calm. -/
theorem calms_run (fuel : Nat) {code : CodeId} (how : Invocation) (member : passive code) :
    Keeping (Calms passive ref outbound) (performWith fuel (.run code how) : Effect σ Reply) := by
  -- The code may complete futures, whose listeners are passive code one level deeper.
  induction fuel generalizing code how with
  | zero => exact fun w => trivial
  | succ fuel ih =>
    refine fun w => meets_of_calm fun calm => ?_
    obtain ⟨body,defined,within⟩ := calm.still code member
    have keeps : Keeping (Calms passive ref outbound) (ofScript (performWith fuel) (body how)) :=
      keeping_of_agree fun _ => agree_interpret
        (fun c still => (calms_answer (fun _ how member => ih how member) still).agree) (within how)
    unfold Meets ends
    rw [run_apply defined]
    exact keeps w

theorem performWith_tells (fuel : Nat) : Tells (Calms passive ref outbound) (performWith fuel : Perform σ) :=
  calms_tells fun _ how member => calms_run fuel how member

theorem calms_failPending (fuel : Nat) (r : SessionRef) (dropped : Nat) :
    Keeping (Calms passive ref outbound) (performWith fuel (.failPending r dropped) : Effect σ Reply) := by
  induction fuel generalizing dropped with
  | zero => exact fun w => trivial
  | succ fuel ih =>
    exact (keeping_failPending (performWith_tells fuel) ih dropped).bind fun _ => keeping_pure _

section Ends

variable (fuel : Nat)

theorem calms_callHandler (inbound : outbound = false) (event : Event) :
    Keeping (Calms passive ref outbound) (callHandler (performWith fuel) ref event : Effect σ Unit) := by
  refine fun w => meets_of_calm fun calm => ?_
  obtain ⟨h,found,custom⟩ := calm.handler inbound
  have here : w.store.handler (w.store.session ref).handler = h := by
    rw [Store.handler,Array.getD_eq_getD_getElem?,found,Option.getD_some]
  unfold callHandler
  rw [meets_bind_of_ok (store_apply w),meets_bind_of_ok (session_apply ref w),here]
  cases h with
  | adapter => exact keeping_pure () w
  | custom code => exact keeping_runCode (calms_run fuel _ (custom code rfl)) w

theorem calm_processor {w : World σ} (calm : w.Calm passive ref outbound) (out : outbound = true) :
    ∃ code, w.store.processor (w.store.session ref).processor = .custom code ∧ passive code := by
  obtain ⟨code,found,member⟩ := calm.processor out
  refine ⟨code,?_,member⟩
  rw [Store.processor,Array.getD_eq_getD_getElem?,found,Option.getD_some]

theorem calms_flush (out : outbound = true) :
    Keeping (Calms passive ref outbound)
      (do flush (performWith fuel) (← session ref).processor ref : Effect σ Unit) := by
  refine fun w => meets_of_calm fun calm => ?_
  obtain ⟨code,custom,member⟩ := calm_processor calm out
  unfold flush
  rw [meets_bind_of_ok (session_apply ref w),meets_bind_of_ok (store_apply w),custom]
  exact keeping_runCode (calms_run fuel _ member) w

theorem calms_removeSession (out : outbound = true) :
    Keeping (Calms passive ref outbound)
      (do removeSession (performWith fuel) (← session ref).processor ref : Effect σ Unit) := by
  refine fun w => meets_of_calm fun calm => ?_
  obtain ⟨code,custom,member⟩ := calm_processor calm out
  unfold removeSession
  rw [meets_bind_of_ok (session_apply ref w),meets_bind_of_ok (store_apply w),custom]
  exact keeping_runCode (calms_run fuel _ member) w

theorem calms_arrival {w₀ w : World σ} {handle : Handle} {event : Event}
    (way : event.outbound = outbound)
    (current : (w.store.chain handle.owner).isCurrent handle = true)
    (last : (w.store.chain handle.owner).following event.outbound handle.entry =
      Chain.exit event.outbound) (related : (Calms passive ref outbound).ended w₀ w) :
    Meets (Calms passive ref outbound) w₀
      (do observe (.arrived handle ref event); terminate (performWith fuel) ref event) w := by
  refine arrival_keeps current related last (fun _ _ => False.elim) (fun inbound => ?_) (fun _ => ?_)
    (fun out => ?_) fun out => ?_
  · exact calms_callHandler fuel (way.symm.trans inbound) event
  · exact keeping_enterClosed (performWith_tells fuel) (calms_failPending fuel ref)
  · exact calms_flush fuel (way.symm.trans out)
  · exact calms_removeSession fuel (way.symm.trans out)

end Ends
end Effect
end SessionPipeline
