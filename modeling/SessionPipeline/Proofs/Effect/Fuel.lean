import SessionPipeline.Execution
import SessionPipeline.Proofs.Chain.Editing

/-! How deep tasks may be nested does not matter to a run that ends: with more fuel it ends the same. So
whatever performs tasks may be replaced by what does the same unless it runs out of fuel. -/
namespace SessionPipeline.Effect

variable {σ α β : Type}

/-- The first computation runs out of fuel or does what the second does. -/
def Below (m m' : Effect σ α) : Prop := ∀ w, (∃ v, m w = .error .outOfFuel v) ∨ m w = m' w

theorem Below.refl (m : Effect σ α) : Below m m := fun _ => .inr rfl

theorem below_outOfFuel (m : Effect σ α) : Below (throw .outOfFuel) m := fun w => .inl ⟨w,rfl⟩

theorem Below.bind {m m' : Effect σ α} {next next' : α → Effect σ β} (head : Below m m')
    (rest : ∀ a, Below (next a) (next' a)) : Below (m >>= next) (m' >>= next') := by
  intro w
  rw [bind_apply,bind_apply]
  rcases head w with ⟨v,out⟩ | same
  · rw [out]
    exact .inl ⟨v,rfl⟩
  · rw [← same]
    cases m w with
    | ok a v => exact rest a v
    | error stop v => exact .inr rfl

/-- Behind the same beginning. -/
theorem Below.after (m : Effect σ α) {next next' : α → Effect σ β}
    (rest : ∀ a, Below (next a) (next' a)) : Below (m >>= next) (m >>= next') := (Below.refl m).bind rest

/-- Behind the same beginning, which is left out on a condition. -/
theorem Below.aside {p : Prop} [Decidable p] {m : Effect σ α} {next next' : Effect σ β}
    (below : Below next next') :
    Below (if p then m >>= fun _ => next else next) (if p then m >>= fun _ => next' else next') := by
  split
  · exact .after m fun _ => below
  · exact below

/-- Before the same end. -/
theorem Below.before {m m' : Effect σ α} (head : Below m m') (next : α → Effect σ β) :
    Below (m >>= next) (m' >>= next) := head.bind fun a => .refl (next a)

theorem Below.attempt {m m' : Effect σ α} (below : Below m m') :
    Below (Effect.attempt m) (Effect.attempt m') := by
  intro w
  unfold Effect.attempt
  rcases below w with ⟨v,out⟩ | same
  · rw [out]
    exact .inl ⟨v,rfl⟩
  · rw [same]
    exact .inr rfl

theorem below_interpret {respond respond' : Call → Effect σ Reply}
    (responds : ∀ c, Below (respond c) (respond' c)) (script : Script σ) :
    Below (interpret respond script) (interpret respond' script) := by
  induction script with
  | done reply => exact .refl _
  | fail failure => exact .refl _
  | look next ih => exact .after _ ih
  | get next ih => exact .after _ fun w => ih w.own
  | set state next ih => exact .after _ fun _ => ih
  | define code next _ ih => exact .after _ fun w => .after _ fun _ => ih w.code.size
  | call c next ih => exact (responds c).bind ih
  | attempt body next tried ih => exact tried.attempt.bind ih

theorem below_react {onward onward' : Event → Effect σ Unit} {own own' : CodeId → Effect σ Unit}
    (passes : ∀ event, Below (onward event) (onward' event)) (runs : ∀ code, Below (own code) (own' code))
    (id : FilterId) (ref : SessionRef) (event : Event) :
    Below (react onward own id ref event) (react onward' own' id ref event) := by
  have frames (list : List Bytes) : Below (forwardFrames onward list) (forwardFrames onward' list) := by
    induction list with
    | nil => exact .refl _
    | cons frame rest ih => exact (passes _).bind fun _ => ih
  refine .after _ fun f => ?_
  cases f with
  | noop => exact passes event
  | adapter => exact passes event
  | logging settings => exact .after _ fun _ => passes event
  | custom label code => exact runs code
  | codec writeMaximum readMaximum =>
    dsimp only
    unfold codecEvent
    split
    · exact .after _ fun _ => passes _
    · refine .after _ fun s => ?_
      dsimp only
      split
      · exact .after _ fun _ => frames _
      · exact .after _ fun _ => .after _ fun _ => (frames _).bind fun _ => passes _
    · exact .after _ fun _ => passes _
    · refine .after _ fun r => ?_
      split
      · exact passes _
      · exact .after _ fun _ => .after _ fun _ => .after _ fun _ => .after _ fun _ => passes _
    · exact passes _

section Performing

variable {perform perform' : Perform σ} (performs : ∀ task, Below (perform task) (perform' task))
include performs

theorem below_runCode (code : CodeId) (how : Invocation) :
    Below (runCode perform code how) (runCode perform' code how) := (performs _).before _

theorem below_runHook (id : FilterId) (hook : Hook) (name : String) (handle : Handle) :
    Below (runHook perform id hook name handle) (runHook perform' id hook name handle) := by
  refine .after _ fun _ => .after _ fun f => ?_
  cases f with
  | custom label code => exact below_runCode performs _ _
  | _ => cases hook <;> exact .refl _

theorem below_runListeners (future : FutureId) (listeners : List CodeId) :
    Below (runListeners perform future listeners) (runListeners perform' future listeners) := by
  induction listeners with
  | nil => exact .refl _
  | cons listener rest ih =>
    exact Below.bind (.after _ fun _ => below_runCode performs _ _) fun _ => ih

theorem below_complete (future : FutureId) (outcome : Outcome) :
    Below (complete perform future outcome) (complete perform' future outcome) := by
  refine .after _ fun s => ?_
  dsimp only
  split
  · exact .refl _
  · exact .after _ fun _ => (below_runListeners performs _ _).before _

theorem below_listen (future : FutureId) (listener : CodeId) :
    Below (listen perform future listener) (listen perform' future listener) := by
  refine .after _ fun s => ?_
  split
  · exact .after _ fun _ => below_runCode performs _ _
  · exact .refl _

theorem below_completeRequest (id : RequestId) (outcome : Outcome) :
    Below (completeRequest perform id outcome) (completeRequest perform' id outcome) := by
  refine .after _ fun r => ?_
  split
  · exact (below_complete performs _ _).before _
  · exact .refl _

theorem below_failPending (ref : SessionRef) (dropped : Nat) :
    Below (failPending perform ref dropped) (failPending perform' ref dropped) := by
  refine .after _ fun polled => ?_
  split
  · exact .after _ fun _ => (below_completeRequest performs _ _).bind fun _ => (performs _).before _
  · exact .refl _

theorem below_callHandler (ref : SessionRef) (event : Event) :
    Below (callHandler perform ref event) (callHandler perform' ref event) := by
  refine .after _ fun s => .after _ fun session => ?_
  split
  · exact .refl _
  · exact below_runCode performs _ _

theorem below_flush (processor : ProcessorId) (ref : SessionRef) :
    Below (flush perform processor ref) (flush perform' processor ref) := by
  refine .after _ fun s => ?_
  split
  · exact (performs _).before _
  · exact below_runCode performs _ _

theorem below_removeSession (processor : ProcessorId) (ref : SessionRef) :
    Below (removeSession perform processor ref) (removeSession perform' processor ref) := by
  refine .after _ fun s => ?_
  split
  · refine .after _ fun session => ?_
    split
    · exact (performs _).before _
    · exact .refl _
  · exact below_runCode performs _ _

theorem below_terminate (ref : SessionRef) (event : Event) :
    Below (terminate perform ref event) (terminate perform' ref event) := by
  have handled := below_callHandler performs ref event
  unfold terminate
  split
  · exact .after _ fun _ => handled
  · exact Below.bind (.after _ fun _ => (below_failPending performs ref 0).before _) fun _ => handled
  · exact .after _ fun _ => handled
  · exact .after _ fun _ => handled
  · exact .after _ fun _ => .after _ fun _ => below_flush performs _ ref
  · exact .after _ fun _ => below_removeSession performs _ ref
  · exact handled

theorem below_forward (handle : Handle) (ref : SessionRef) (event : Event) :
    Below (forward perform handle ref event) (forward perform' handle ref event) := by
  refine .after _ fun c => ?_
  split
  · refine .after _ fun _ => ?_
    unfold beyond
    dsimp only
    split
    · exact below_terminate performs ref event
    · split
      · exact (performs _).before _
      · exact .refl _
  · exact .refl _

theorem below_fire (ref : SessionRef) (event : Event) :
    Below (fire perform ref event) (fire perform' ref event) := below_forward performs _ ref event

theorem below_drain (processor : ProcessorId) (ref : SessionRef) :
    Below (drain perform processor ref) (drain perform' processor ref) := by
  refine .after _ fun polled => ?_
  split
  · exact .after _ fun _ => (below_completeRequest performs _ _).bind fun _ =>
      (below_fire performs ref _).bind fun _ => (performs _).before _
  · exact .refl _

theorem below_write (ref : SessionRef) (message : Message) :
    Below (write perform ref message) (write perform' ref message) := by
  refine .after _ fun future => .after _ fun s => ?_
  split
  · exact .after _ fun _ => (below_complete performs _ _).before _
  · exact .after _ fun _ => (below_fire performs ref _).before _

theorem below_close (ref : SessionRef) : Below (close perform ref) (close perform' ref) := by
  refine .after _ fun s => ?_
  split
  · exact .refl _
  · exact .after _ fun _ => .after _ fun _ => .after _ fun _ => below_fire performs ref _

theorem below_deliver (id : FilterId) (handle : Handle) (ref : SessionRef) (event : Event) :
    Below (deliver perform id handle ref event) (deliver perform' id handle ref event) :=
  below_react (below_forward performs handle ref) (fun _ => below_runCode performs _ _) id ref event

theorem below_admitEntry (ref : SessionRef) (position : Position) (name : String) (filter : FilterId) :
    Below (admitEntry perform ref position name filter) (admitEntry perform' ref position name filter) :=
  .after _ fun _ => .after _ fun _ => .after _ fun _ => (below_runHook performs _ _ _ _).attempt.before _

theorem below_confirmEntry (ref : SessionRef) (name : String) (filter : FilterId) (handle : Handle) :
    Below (confirmEntry perform ref name filter handle) (confirmEntry perform' ref name filter handle) :=
  (below_runHook performs _ _ _ _).attempt.before _

theorem below_add (ref : SessionRef) (position : Position) (name : String) (filter : Option FilterId) :
    Below (add perform ref position name filter) (add perform' ref position name filter) :=
  .after _ fun _ => (below_admitEntry performs _ _ _ _).bind fun _ => .after _ fun _ => .after _ fun _ =>
    below_confirmEntry performs _ _ _ _

theorem below_removeEntry (ref : SessionRef) (id : EntryId) :
    Below (removeEntry perform ref id) (removeEntry perform' ref id) := by
  refine .after _ fun c => ?_
  dsimp only
  split
  · exact .refl _
  · rename_i filter _
    have leave : Below (do
        if (← chain ref).isCurrent (c.handle ref id) then
          dropEntry ref (c.handle ref id) (c.slot id).name
          logChain ref .debug ("removed " ++ (c.slot id).name)
          runHook perform filter .postRemove (c.slot id).name (c.handle ref id)
        return some filter) (do
        if (← chain ref).isCurrent (c.handle ref id) then
          dropEntry ref (c.handle ref id) (c.slot id).name
          logChain ref .debug ("removed " ++ (c.slot id).name)
          runHook perform' filter .postRemove (c.slot id).name (c.handle ref id)
        return some filter) := by
      refine .after _ fun c => ?_
      dsimp only
      split
      · exact .after _ fun _ => .after _ fun _ => (below_runHook performs _ _ _ _).before _
      · exact .refl _
    refine (below_runHook performs _ _ _ _).attempt.bind fun asked => ?_
    cases asked with
    | error failure => exact .after _ fun _ => leave
    | ok => exact leave

theorem below_remove (ref : SessionRef) (name : String) :
    Below (remove perform ref name) (remove perform' ref name) := by
  refine .after _ fun c => ?_
  split
  · exact below_removeEntry performs _ _
  · exact .refl _

theorem below_removeFilter (ref : SessionRef) (filter : Option FilterId) :
    Below (removeFilter perform ref filter) (removeFilter perform' ref filter) := by
  refine .after _ fun c => ?_
  split
  · exact (below_removeEntry performs _ _).before _
  · exact .refl _

theorem below_clear (ref : SessionRef) : Below (clear perform ref) (clear perform' ref) := by
  refine .after _ fun c => ?_
  split
  · split
    · exact .refl _
    · exact (below_removeEntry performs _ _).bind fun _ => (performs _).before _
  · exact .refl _

theorem below_addAll (ref : SessionRef) (entries : List (String × FilterId)) :
    Below (addAll perform ref entries) (addAll perform' ref entries) := by
  induction entries with
  | nil => exact .refl _
  | cons entry rest ih => exact (below_add performs _ _ _ _).bind fun _ => ih

section Undoing

variable {undo undo' : SessionRef → Handle → FilterId → Failure → Effect σ (Option FilterId)}
  (undoes : ∀ session handle old failure,
    Below (undo session handle old failure) (undo' session handle old failure))
include undoes

theorem below_exchangeWith (ref : SessionRef) (name : String) (filter : FilterId) (handle : Handle) :
    Below (exchangeWith undo perform ref name filter handle)
      (exchangeWith undo' perform' ref name filter handle) := by
  refine .after _ fun c => ?_
  dsimp only
  refine .aside ?_
  split
  · exact .refl _
  · refine .after _ fun _ => .after _ fun _ => .after _ fun _ =>
      (below_runHook performs _ _ _ _).attempt.bind fun told => ?_
    cases told with
    | error failure => exact undoes _ _ _ _
    | ok => exact .refl _

theorem below_replaceWith (ref : SessionRef) (name : String) (filter : Option FilterId) :
    Below (replaceWith undo perform ref name filter) (replaceWith undo' perform' ref name filter) := by
  refine .after _ fun _ => .after _ fun _ => .after _ fun _ =>
    (below_runHook performs _ _ _ _).attempt.bind fun asked => ?_
  cases asked with
  | error failure => exact .after _ fun _ => below_exchangeWith performs undoes _ _ _ _
  | ok => exact below_exchangeWith performs undoes _ _ _ _

end Undoing

theorem below_validateWith (factory : Factory) (config : Json) :
    Below (validateWith perform factory config) (validateWith perform' factory config) := by
  cases factory with
  | custom metadata defaults code => exact (performs _).before _
  | _ => exact .refl _

theorem below_createWith (factory : Factory) (config : Json) :
    Below (createWith perform factory config) (createWith perform' factory config) := by
  cases factory with
  | custom metadata defaults code => exact (performs _).before _
  | _ => exact .refl _

theorem below_createFilter (type : String) (config : Json) :
    Below (createFilter perform type config) (createFilter perform' type config) := by
  have valid (factory : Factory) (effective : Json) : Below (createValid perform type factory effective)
      (createValid perform' type factory effective) := (below_createWith performs _ _).attempt.before _
  refine .after _ fun s => ?_
  split
  · exact .refl _
  · refine (below_validateWith performs _ _).bind fun checked => ?_
    dsimp only
    split
    · exact .after _ fun _ => .after _ fun _ => valid _ _
    · exact valid _ _

theorem below_configure (config : SessionConfig) :
    Below (configure perform config) (configure perform' config) := by
  have adds (t : Template) (filters : List FilterConfig) :
      Below (addConfigured perform t filters) (addConfigured perform' t filters) := by
    induction filters generalizing t with
    | nil => exact .refl _
    | cons f rest ih =>
      unfold addConfigured
      split
      · exact .after _ fun _ => ih t
      · exact (below_createFilter performs _ _).bind fun _ => .after _ ih
  exact .after _ fun _ => .after _ fun _ => (adds _ _).before _

theorem below_ofCall (c : Call) : Below (ofCall perform c) (ofCall perform' c) := by
  cases c with
  | add ref position name filter => exact (below_add performs _ _ _ _).before _
  | remove ref name => exact (below_remove performs _ _).before _
  | removeFilter ref filter => exact (below_removeFilter performs _ _).before _
  | replace ref name filter =>
    have replaces := below_replaceWith performs
      (fun session handle old failure => .refl (putBack session handle old failure)) ref name filter
    rw [replaceWith_putBack,replaceWith_putBack] at replaces
    exact replaces.before _
  | clear ref => exact (below_clear performs ref).before _
  | addAll ref entries => exact (below_addAll performs _ _).before _
  | fire ref event => exact (below_fire performs _ _).before _
  | forward handle ref event => exact (below_forward performs _ _ _).before _
  | write ref message => exact (below_write performs _ _).before _
  | close ref => exact (below_close performs ref).before _
  | flush processor ref => exact (below_flush performs _ _).before _
  | removeSession processor ref => exact (below_removeSession performs _ _).before _
  | complete future outcome => exact (below_complete performs _ _).before _
  | listen future listener => exact (below_listen performs _ _).before _
  | createFilter type config => exact .after _ fun _ => (below_createFilter performs _ _).before _
  | validateWith factory config => exact (below_validateWith performs _ _).before _
  | createWith factory config => exact (below_createWith performs _ _).before _
  | configure config => exact (below_configure performs config).before _
  | _ => exact .refl _

theorem below_answer (c : Call) : Below (answer perform c) (answer perform' c) :=
  .after _ fun _ => below_ofCall performs c

theorem below_ofTask (task : Task) : Below (ofTask perform task) (ofTask perform' task) := by
  cases task with
  | run code how =>
    refine .after _ fun w => ?_
    split
    · exact below_interpret (below_answer performs) _
    · exact .refl _
  | deliver filter handle ref event => exact (below_deliver performs _ _ _ _).before _
  | fire ref event => exact (below_fire performs _ _).before _
  | drain processor ref => exact (below_drain performs _ _).before _
  | clear ref => exact (below_clear performs ref).before _
  | failPending ref dropped => exact (below_failPending performs _ _).before _

end Performing

/-- A task that ends does so the same with more fuel. -/
theorem performWith_below {fuel fuel' : Nat} (more : fuel ≤ fuel') (task : Task) :
    Below (performWith fuel task : Effect σ Reply) (performWith fuel' task) := by
  induction fuel generalizing fuel' task with
  | zero => exact below_outOfFuel _
  | succ fuel ih =>
    obtain ⟨rest,rfl⟩ := Nat.exists_eq_add_of_lt more
    exact below_ofTask (fun task => ih (Nat.le_add_right fuel rest) task) task

end Effect

/-- A run that ends does so the same with more fuel. -/
theorem Script.execute_mono {σ : Type} {fuel fuel' : Nat} (more : fuel ≤ fuel') {script : Script σ}
    {w : World σ} (ended : (script.execute fuel w).1 ≠ .outOfFuel) :
    script.execute fuel' w = script.execute fuel w := by
  have below := Effect.below_interpret
    (Effect.below_answer fun task => Effect.performWith_below more task) script w
  unfold execute Effect.ofScript at ended ⊢
  rcases below with ⟨v,out⟩ | same
  · rw [out] at ended
    exact absurd rfl ended
  · rw [same]

end SessionPipeline
