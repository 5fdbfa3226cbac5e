import SessionPipeline.Execution
import SessionPipeline.Proofs.Effect.Operations

/-! Computations that cannot be told apart as long as the world stays related to the one they were
started in. Scripts and filters agree if what they are given to ask agrees. -/
namespace SessionPipeline

/-- All that a script ever asks for satisfies `calls`. -/
inductive Script.Within {σ : Type} (calls : Call → Prop) : Script σ → Prop
  | done (reply : Reply) : Within calls (.done reply)
  | fail (failure : Failure) : Within calls (.fail failure)
  | look {next : Store → Script σ} (rest : ∀ s, Within calls (next s)) : Within calls (.look next)
  | get {next : σ → Script σ} (rest : ∀ state, Within calls (next state)) : Within calls (.get next)
  | set (state : σ) {next : Script σ} (rest : Within calls next) : Within calls (.set state next)
  | define (code : Invocation → Script σ) {next : CodeId → Script σ}
      (rest : ∀ id, Within calls (next id)) : Within calls (.define code next)
  | call {c : Call} {next : Reply → Script σ} (asked : calls c)
      (rest : ∀ reply, Within calls (next reply)) : Within calls (.call c next)
  | attempt {body : Script σ} {next : Except Failure Reply → Script σ} (tried : Within calls body)
      (rest : ∀ result, Within calls (next result)) : Within calls (.attempt body next)

namespace Effect

variable {σ α β : Type} {R : Contract σ} {w₀ w : World σ}

/-- In this world both do the same and end in one that is related to `w₀`. -/
def Agrees (R : Contract σ) (w₀ : World σ) (m m' : Effect σ α) (w : World σ) : Prop :=
  m w = m' w ∧ Meets R w₀ m w

/-- In every world that `w₀` is related to, both do the same and end in such a world. -/
def Agree (R : Contract σ) (w₀ : World σ) (m m' : Effect σ α) : Prop :=
  ∀ w, R.ended w₀ w → Agrees R w₀ m m' w

theorem Agrees.bind {m m' : Effect σ α} {next next' : α → Effect σ β} (first : Agrees R w₀ m m' w)
    (rest : ∀ a w', m w = .ok a w' → R.ended w₀ w' → Agrees R w₀ (next a) (next' a) w') :
    Agrees R w₀ (m >>= next) (m' >>= next') w := by
  obtain ⟨same,meets⟩ := first
  unfold Agrees
  rw [bind_apply,bind_apply,← same,meets_bind]
  unfold Meets ends at meets
  unfold ends
  cases ended : m w with
  | ok a w₁ =>
    rw [ended] at meets
    exact rest a w₁ ended meets
  | error stop w₁ =>
    rw [ended] at meets
    cases stop with
    | failed failure => exact ⟨rfl,meets⟩
    | outOfFuel => exact ⟨rfl,meets⟩

theorem Agree.bind {m m' : Effect σ α} {next next' : α → Effect σ β} (first : Agree R w₀ m m')
    (rest : ∀ a, Agree R w₀ (next a) (next' a)) : Agree R w₀ (m >>= next) (m' >>= next') :=
  fun w related => (first w related).bind fun a w' _ => rest a w'

theorem Agrees.bind_of_ok {m : Effect σ α} {next next' : α → Effect σ β} {a : α} {w' : World σ}
    (returned : m w = .ok a w') (rest : Agrees R w₀ (next a) (next' a) w') :
    Agrees R w₀ (m >>= next) (m >>= next') w := by
  unfold Agrees at rest ⊢
  rwa [Effect.bind_of_ok returned,Effect.bind_of_ok returned,meets_bind_of_ok returned]

theorem Agree.attempt {m m' : Effect σ α} (agree : Agree R w₀ m m') :
    Agree R w₀ (Effect.attempt m) (Effect.attempt m') := by
  intro w related
  obtain ⟨same,meets⟩ := agree w related
  exact ⟨by rw [Effect.attempt,Effect.attempt,same],ends_attempt.mpr meets⟩

section Discreet

variable [Discreet R]

theorem agree_outOfFuel : Agree R w₀ (throw .outOfFuel : Effect σ α) (throw .outOfFuel) :=
  fun _ related => ⟨rfl,Discreet.stop related⟩

theorem Keeping.agree {m : Effect σ α} (keeping : Keeping R m) : Agree R w₀ m m :=
  fun _ related => ⟨rfl,keeping.from related⟩

theorem keeping_of_agree {m : Effect σ α} (agree : ∀ w₀, Agree R w₀ m m) : Keeping R m :=
  fun w => (agree w w (Discreet.refl w)).2

theorem keeping_get : Keeping R (MonadState.get : Effect σ (World σ)) :=
  keeping_of_ok fun w => ⟨w,w,rfl,Discreet.refl w⟩

theorem agree_interpret {calls : Call → Prop} {respond respond' : Call → Effect σ Reply}
    (agree : ∀ c, calls c → Agree R w₀ (respond c) (respond' c)) {script : Script σ}
    (asks : script.Within calls) :
    Agree R w₀ (interpret respond script) (interpret respond' script) := by
  have got : Agree R w₀ (MonadState.get : Effect σ (World σ)) MonadState.get := keeping_get.agree
  -- Between its calls a script looks at what both runs have in common.
  induction asks with
  | done reply => exact (keeping_pure reply).agree
  | fail failure => exact (keeping_fail failure).agree
  | look _ ih => exact keeping_store.agree.bind ih
  | get _ ih => exact got.bind fun w => ih w.own
  | set state _ ih =>
    have kept : Keeping R (modify fun w => { w with own := state } : Effect σ Unit) :=
      keeping_of_quiet fun w => ⟨(),_,rfl,.own w state,fun _ _ => rfl⟩
    exact kept.agree.bind fun _ => ih
  | define code _ ih =>
    have kept : Keeping R (modify fun w => { w with code := w.code.push code } : Effect σ Unit) :=
      keeping_of_quiet fun w => ⟨(),_,rfl,.define w code,fun _ _ => rfl⟩
    exact got.bind fun w => kept.agree.bind fun _ => ih w.code.size
  | call asked _ ih => exact (agree _ asked).bind ih
  | attempt _ _ tried ih => exact tried.attempt.bind ih

theorem logEvent_apply (id : FilterId) (settings : LogSettings) (ref : SessionRef) (event : Event)
    (w : World σ) : ∃ text context, logEvent id settings ref event w =
      .ok () (w.logged settings.logger (settings.level event.kind) text context) := by
  unfold logEvent
  rw [bind_of_ok (store_apply w)]
  exact ⟨_,_,logBytes_apply _ _ _ _ w⟩

section Filters

variable {onward onward' : Event → Effect σ Unit} {outbound : Bool} {ref : SessionRef}
  (agree : ∀ event, event.outbound = outbound → ∀ w, R.ended w₀ w → w.Admits R.terms ref event →
    Agrees R w₀ (onward event) (onward' event) w)
include agree

theorem agree_forwardFrames (inbound : outbound = false) (frames : List Bytes) :
    Agree R w₀ (forwardFrames onward frames) (forwardFrames onward' frames) := by
  induction frames with
  | nil => exact (keeping_pure ()).agree
  | cons frame rest ih =>
    exact Agree.bind (fun w related => agree (.messageReceived (.bytes frame)) inbound.symm w related
      (World.admits_of_ne (by nofun) w ref)) fun _ => ih

/-- A codec keeps what it is fed before it passes anything on. -/
theorem agrees_receiveBytes (inbound : outbound = false) {codec : FilterId} (maximum : UInt64)
    (input : Bytes) (related : R.ended w₀ w) (decodes : (w.store.filter codec).isCodec = true)
    {handle : Handle} (fed : w.Feeds R.terms codec handle ref) :
    Agrees R w₀ (receiveBytes onward codec maximum ref input)
      (receiveBytes onward' codec maximum ref input) w := by
  have frames := agree_forwardFrames agree inbound
  refine Agrees.bind_of_ok (session_apply ref w) ?_
  dsimp only
  split
  · have kept (rest : Bytes) := Discreet.quiet (R := R) (.kept w ref codec rest decodes fun _ => ⟨handle,fed⟩)
      (World.sameNames_kept w ref codec rest)
    exact Agrees.bind_of_ok (modifySession_apply ref _ w) (frames _ _ (Discreet.trans related (kept _)))
  · rename_i failure _
    refine Agrees.bind_of_ok (log_apply codecLogger .warning _ w) ?_
    have logged (text : Bytes) := Discreet.quiet (R := R) (.logged w codecLogger .warning text {}) fun _ _ => rfl
    have kept (text : Bytes) := Discreet.quiet (R := R)
      (.kept (w.logged codecLogger .warning text) ref codec [] decodes nofun) (World.sameNames_kept _ ref codec [])
    refine Agrees.bind_of_ok (modifySession_apply ref _ _) ((frames _).bind (fun _ w related =>
      agree (.exceptionCaught (some failure)) inbound.symm w related
        (World.admits_of_ne (by nofun) w ref)) _ ?_)
    exact Discreet.trans related (Discreet.trans (logged _) (kept _))

/-- A codec writes the request that it is given, or one that it has just made. -/
theorem agrees_encodeRequest (out : outbound = true) (maximum : UInt64) (id : RequestId)
    (related : R.ended w₀ w) (admits : w.Admits R.terms ref (.filterWrite id)) :
    Agrees R w₀ (encodeRequest onward maximum ref id) (encodeRequest onward' maximum ref id) w := by
  refine Agrees.bind_of_ok (request_apply id w) ?_
  generalize w.store.request id = r
  split
  · exact agree (.filterWrite id) out.symm w related admits
  · rename_i message _
    cases Frame.encode maximum r.message with
    | error failure => exact ⟨rfl,related⟩
    | ok encoded =>
      have logged (text : Bytes) : R.ended w₀ (w.logged codecLogger .debug text) :=
        Discreet.trans related (Discreet.quiet (.logged w codecLogger .debug text {}) fun _ _ => rfl)
      refine Agrees.bind_of_ok (ofExcept_apply encoded w) (Agrees.bind_of_ok (sessionId_apply ref w) ?_)
      refine Agrees.bind_of_ok (log_apply codecLogger .debug _ w) ?_
      refine Agrees.bind ((keeping_wrapRequest _ _).agree _ (logged _)) fun wrapper w' wrapped made => ?_
      rw [wrapRequest_apply] at wrapped
      cases wrapped
      refine agree (.filterWrite _) out.symm _ made fun other same within => ?_
      cases same
      refine ⟨(admits id rfl within).1,?_⟩
      simp [World.mapStore]

theorem agrees_codecEvent {codec : FilterId} (writeMaximum readMaximum : UInt64) {event : Event}
    (way : event.outbound = outbound) (related : R.ended w₀ w) (admits : w.Admits R.terms ref event)
    (decodes : (w.store.filter codec).isCodec = true) {handle : Handle}
    (fed : w.Feeds R.terms codec handle ref) :
    Agrees R w₀ (codecEvent onward codec writeMaximum readMaximum ref event)
      (codecEvent onward' codec writeMaximum readMaximum ref event) w := by
  unfold codecEvent
  split
  · exact ((keeping_discardPending _ _).agree w related).bind fun _ w' _ later =>
      agree .sessionClosed way w' later (World.admits_of_ne (by nofun) w' ref)
  · exact agrees_receiveBytes agree way.symm _ _ related decodes fed
  · rename_i id
    exact Agrees.bind_of_ok (request_apply id w) (agree (.messageSent
      ((w.store.request id).inner.getD id)) way w related (World.admits_of_ne (by nofun) w ref))
  · exact agrees_encodeRequest agree way.symm _ _ related admits
  · exact agree _ way w related admits

/-- What a filter does with an event depends only on what it passes on and on its own code. -/
theorem agrees_react {own own' : CodeId → Effect σ Unit} {id : FilterId} {event : Event}
    (way : event.outbound = outbound)
    (runs : ∀ w, R.ended w₀ w → ∀ label code, w.store.filter id = .custom label code →
      Agrees R w₀ (own code) (own' code) w)
    (related : R.ended w₀ w) (admits : w.Admits R.terms ref event) {handle : Handle}
    (fed : w.Feeds R.terms id handle ref) :
    Agrees R w₀ (react onward own id ref event) (react onward' own' id ref event) w := by
  refine Agrees.bind_of_ok (filter_apply id w) ?_
  cases kind : w.store.filter id with
  | noop => exact agree event way w related admits
  | adapter => exact agree event way w related admits
  | logging settings =>
    obtain ⟨text,context,logged⟩ := logEvent_apply id settings ref event w
    refine Agrees.bind_of_ok logged (agree event way _ ?_ ?_)
    · exact Discreet.trans related (Discreet.quiet (.logged w _ _ _ _) fun _ _ => rfl)
    · exact admits.mono (Nat.le_refl _) (Nat.le_refl _)
  | codec writeMaximum readMaximum =>
    exact agrees_codecEvent agree _ _ way related admits (by rw [kind]; rfl) fed
  | custom label code => exact runs w related label code kind

end Filters
end Discreet
end Effect
end SessionPipeline
