import SessionPipeline.Proofs.Chain.Reached
import SessionPipeline.Proofs.Effect.Calm

/-! How an event passes through a chain that nobody edits meanwhile: as if each filter were given the
rest of the list of entries to call, with the handler or the processor behind the last one. -/
namespace SessionPipeline

namespace Effect

variable {σ : Type}

def deeper (body : Nat → Effect σ Unit) : Nat → Effect σ Unit
  | 0 => throw .outOfFuel
  | fuel + 1 => body fuel

/-- What a call does for a filter that passes events on through `onward`. -/
def answerOnward (perform : Perform σ) (onward : Event → Effect σ Unit) : Call → Effect σ Reply
  | .forward _ _ event => do
    onward event
    return .unit
  | c => answer perform c

def runOnward (onward : Nat → Event → Effect σ Unit) (code : CodeId) (how : Invocation) :
    Nat → Effect σ Unit :=
  deeper fun fuel => do
    match (← MonadState.get).code[code]? with
    | some body => do
      let _ ← interpret (answerOnward (performWith fuel) (onward fuel)) (body how)
    | none => pure ()

/-- What becomes of an event that goes on from an entry with these entries ahead: the first filter
runs, and whatever it passes on is expanded over the rest; past the last one is the end of the chain. -/
def expand (ref : SessionRef) : List Entry → Nat → Handle → Event → Effect σ Unit
  | [], fuel, source, event => do
    observe (.arrived source ref event)
    terminate (performWith fuel) ref event
  | e :: rest, fuel, source, event => do
    observe (.delivered source e.handle ref event)
    match e.filter with
    | some id => deeper (fun fuel => react (expand ref rest fuel e.handle)
        (fun code => runOnward (fun fuel => expand ref rest fuel e.handle) code
          (.event event ref e.handle) fuel) id ref event) fuel
    | none => pure ()

end Effect

namespace Chain

variable {c : Chain} {ids flight : List EntryId}

/-- The neighbour to which an event goes. -/
def ahead (outbound : Bool) (s : Slot) : Option EntryId := if outbound then s.prev else s.next

theorem following_eq (c : Chain) (outbound : Bool) (id : EntryId) :
    c.following outbound id = (ahead outbound (c.slot id)).getD (exit outbound) := by
  cases outbound <;> rfl

theorem Holds.traverses (holds : c.Holds ids flight) (outbound : Bool) :
    c.Traverses (ahead outbound) (exit outbound) (ahead outbound (c.slot (entrance outbound)))
      (if outbound then ids.reverse else ids) := by
  cases outbound
  · exact holds.traverses_forwards
  · exact holds.traverses_backwards

theorem Traverses.behind {step : Slot → Option EntryId} {stop : EntryId} {before after : List EntryId}
    {id : EntryId} {start : Option EntryId} (traverses : c.Traverses step stop start (before ++ id :: after)) :
    c.Traverses step stop (step (c.slot id)) after := by
  induction before generalizing start with
  | nil =>
    cases traverses with
    | step _ rest => exact rest
  | cons other before ih =>
    cases traverses with
    | step _ rest => exact ih rest

/-- What is ahead of each slot of a chain, from where an event enters it. -/
theorem Holds.traverses_behind (holds : c.Holds ids flight) (outbound : Bool)
    {before after : List EntryId} {id : EntryId}
    (split : entrance outbound :: (if outbound then ids.reverse else ids) = before ++ id :: after) :
    c.Traverses (ahead outbound) (exit outbound) (ahead outbound (c.slot id)) after := by
  have ahead := holds.traverses outbound
  cases before with
  | nil =>
    obtain ⟨rfl,rfl⟩ := List.cons.inj split
    exact ahead
  | cons first before =>
    obtain ⟨_,behind⟩ := List.cons.inj split
    rw [behind] at ahead
    exact ahead.behind

theorem Holds.entries_eq (holds : c.Holds ids flight) (owner : SessionRef) (outbound : Bool) :
    (if outbound then c.getAllReversed owner else c.getAll owner) =
      (if outbound then ids.reverse else ids).map (c.entry owner) := by
  cases outbound
  · exact holds.getAll_eq owner
  · exact congrArg (List.map _) holds.backwards_eq

theorem Holds.isCurrent (holds : c.Holds ids flight) (owner : SessionRef) {id : EntryId}
    (member : id ∈ head :: (ids ++ [tail])) : c.isCurrent (c.handle owner id) = true := by
  have inside := holds.inside member
  have linked := (holds.flags id).mpr (by simp at member ⊢; tauto)
  simp [Chain.isCurrent,handle,inside,linked]

end Chain

namespace Effect

open World

variable {σ : Type} {passive : CodeId → Prop} {ref : SessionRef} {outbound : Bool}
  {w₀ : World σ} {R : Contract σ}

theorem Agree.of_eq {α : Type} {m m' n n' : Effect σ α} (agree : Agree R w₀ n n')
    (left : ∀ w, R.ended w₀ w → m w = n w) (right : ∀ w, R.ended w₀ w → m' w = n' w) :
    Agree R w₀ m m' := by
  intro w related
  obtain ⟨equal,meets⟩ := agree w related
  unfold Meets ends at meets
  unfold Agrees Meets ends
  rw [left w related,right w related]
  exact ⟨equal,meets⟩

theorem agree_deeper [Lawful R] {body body' : Nat → Effect σ Unit}
    (agree : ∀ fuel, Agree R w₀ (body fuel) (body' fuel)) (fuel : Nat) :
    Agree R w₀ (deeper body fuel) (deeper body' fuel) := by
  cases fuel with
  | zero => exact agree_outOfFuel
  | succ fuel => exact agree fuel

theorem perform_deliver (fuel : Nat) (id : FilterId) (handle : Handle) (event : Event) :
    (do let _ ← performWith fuel (.deliver id handle ref event) : Effect σ Unit) =
      deeper (fun fuel => deliver (performWith fuel) id handle ref event) fuel := by
  cases fuel with
  | zero => rfl
  | succ fuel => simp [performWith,ofTask,deeper]

theorem agree_answer {handle : Handle} (calm : w₀.Calm passive ref outbound) (owner : handle.owner = ref)
    {fuel : Nat} {onward : Event → Effect σ Unit}
    (agree : ∀ event, event.outbound = outbound → Agree (Calms passive ref outbound) w₀
      (forward (performWith fuel) handle ref event) (onward event)) {c : Call}
    (asked : c.Onward passive handle ref outbound) :
    Agree (Calms passive ref outbound) w₀ (answer (performWith fuel) c)
      (answerOnward (performWith fuel) onward c) := by
  rcases asked with still | ⟨event,way,rfl⟩
  · have same : answerOnward (performWith fuel) onward c = answer (performWith fuel) c := by
      cases c <;> first | rfl | cases still
    rw [same]
    exact (calms_answer (fun _ how member => calms_run fuel how member) still).agree
  · have passed : Agree (Calms passive ref outbound) w₀
        (do forward (performWith fuel) handle ref event; return Reply.unit)
        (do onward event; return Reply.unit) :=
      (agree event way).bind fun _ => (keeping_pure _).agree
    refine passed.of_eq (fun w related => ?_) fun _ _ => rfl
    have present := (related calm).1.present
    exact bind_of_ok (needSessions_apply (by simp [Call.sessions,owner,present]))

theorem agree_runCode {e : Entry} (calm : w₀.Calm passive ref outbound) (owner : e.handle.owner = ref)
    {rest : List Entry} (agree : ∀ fuel event, event.outbound = outbound →
      Agree (Calms passive ref outbound) w₀ (forward (performWith fuel) e.handle ref event)
        (expand ref rest fuel e.handle event)) {code : CodeId} {body : Invocation → Script σ}
    {event : Event} (defined : w₀.code[code]? = some body)
    (onward : (body (.event event ref e.handle)).Within (Call.Onward passive e.handle ref outbound))
    (fuel : Nat) :
    Agree (Calms passive ref outbound) w₀
      (runCode (performWith fuel) code (.event event ref e.handle))
      (runOnward (fun fuel => expand ref rest fuel e.handle) code (.event event ref e.handle) fuel) := by
  cases fuel with
  | zero => exact agree_outOfFuel
  | succ fuel =>
    have scripts : Agree (Calms passive ref outbound) w₀
        (ofScript (performWith fuel) (body (.event event ref e.handle)) >>= fun _ => pure ())
        (interpret (answerOnward (performWith fuel) (expand ref rest fuel e.handle))
          (body (.event event ref e.handle)) >>= fun _ => pure ()) :=
      (agree_interpret (fun c asked => agree_answer calm owner (agree fuel) asked) onward).bind
        fun _ => (keeping_pure ()).agree
    refine scripts.of_eq (fun w related => ?_) fun w related => ?_
    · have there := (related calm).2.code code body defined
      unfold runCode
      rw [bind_apply,run_apply there,← bind_apply]
    · have there := (related calm).2.code code body defined
      unfold runOnward deeper
      dsimp only
      rw [bind_of_ok (get_apply w),there]

/-- A filter on the way does what it does if it were given what lies ahead to call. -/
theorem agree_deliver {e : Entry} (calm : w₀.Calm passive ref outbound) (owner : e.handle.owner = ref)
    (member : e ∈ (w₀.store.chain ref).getAll ref) {filter : FilterId} (holding : e.filter = some filter)
    {rest : List Entry} (passes : ∀ fuel event, event.outbound = outbound →
      Agree (Calms passive ref outbound) w₀ (forward (performWith fuel) e.handle ref event)
        (expand ref rest fuel e.handle event)) {event : Event} (way : event.outbound = outbound)
    (fuel : Nat) :
    Agree (Calms passive ref outbound) w₀ (deliver (performWith fuel) filter e.handle ref event)
      (react (expand ref rest fuel e.handle)
        (fun code => runOnward (fun fuel => expand ref rest fuel e.handle) code
          (.event event ref e.handle) fuel) filter ref event) := by
  obtain ⟨f,found,scripted⟩ := calm.filters e member filter holding
  intro w₁ related₁
  have fed : w₁.Feeds .free filter e.handle ref := False.elim
  refine agrees_react (fun event way w related _ => passes fuel event way w related) way
    (fun w related label code kind => ?_) related₁ (fun _ _ => False.elim) fed
  obtain ⟨f',found',same,_⟩ := (related calm).2.filters filter f found
  have custom : f' = .custom label code := by
    rw [← kind,Store.filter,Array.getD_eq_getD_getElem?,found',Option.getD_some]
  rw [custom] at same
  obtain ⟨body,defined,onward⟩ := scripted code same.symm
  exact agree_runCode calm owner passes defined (onward event way) fuel w related

/-- A forward is the expansion over the entries ahead. -/
theorem agree_forward {c : Chain} {all flight : List EntryId} (holds : c.Holds all flight)
    (here : w₀.store.chain ref = c) (calm : w₀.Calm passive ref outbound)
    {start : Option EntryId} {ids : List EntryId}
    (ahead : c.Traverses (Chain.ahead outbound) (Chain.exit outbound) start ids)
    (inside : ∀ id ∈ ids, id ∈ all) {a : EntryId} (from' : Chain.ahead outbound (c.slot a) = start)
    (current : c.isCurrent (c.handle ref a) = true) (fuel : Nat) {event : Event}
    (way : event.outbound = outbound) :
    Agree (Calms passive ref outbound) w₀
      (forward (performWith fuel) (c.handle ref a) ref event)
      (expand ref (ids.map (c.entry ref)) fuel (c.handle ref a) event) := by
  have same (w : World σ) (related : (Calms passive ref outbound).ended w₀ w) :
      w.store.chain (c.handle ref a).owner = c := by
    change w.store.chain ref = c
    rw [(related calm).2.chain,here]
  have next : c.following event.outbound a = start.getD (Chain.exit event.outbound) := by
    rw [Chain.following_eq,way,from']
  -- What lies ahead gets shorter from filter to filter; the fuel and the event change on the way.
  induction ahead generalizing a fuel event with
  | stop =>
    have last : c.following event.outbound a = Chain.exit event.outbound :=
      next.trans (by rw [way]; rfl)
    intro w related
    have here := same w related
    unfold Agrees Meets ends
    rw [forward_end here current last]
    exact ⟨rfl,calms_arrival fuel way (here ▸ current) (here ▸ last) related⟩
  | @step id ids onward rest ih =>
    have member : id ∈ all := inside id List.mem_cons_self
    have listed : c.entry ref id ∈ (w₀.store.chain ref).getAll ref := by
      rw [here]
      exact (holds.mem_getAll ref _).mpr ⟨id,member,rfl⟩
    obtain ⟨filter,holding⟩ := Option.isSome_iff_exists.mp (holds.filters id member)
    have still : c.isCurrent (c.handle ref id) = true := holds.isCurrent ref (by simp [member])
    -- What the filter passes on goes from its own entry over the rest.
    have passes (fuel : Nat) (event : Event) (way : event.outbound = outbound) :
        Agree (Calms passive ref outbound) w₀
          (forward (performWith fuel) (c.handle ref id) ref event)
          (expand ref (ids.map (c.entry ref)) fuel (c.handle ref id) event) :=
      ih (fun x inner => inside x (List.mem_cons_of_mem _ inner)) rfl still fuel way same
        (by rw [Chain.following_eq,way])
    have delivers := agree_deeper (agree_deliver calm rfl listed holding passes way) fuel
    have observes : Agree (Calms passive ref outbound) w₀
        (observe (.delivered (c.handle ref a) (c.handle ref id) ref event) : Effect σ Unit)
        (observe (.delivered (c.handle ref a) (c.handle ref id) ref event)) := fun w related => by
      have here := same w related
      have following : (w.store.chain (c.handle ref a).owner).following event.outbound a = id :=
        here ▸ next
      have told := delivered_related (here ▸ current) related following (way ▸ onward) ref
      rw [here] at told
      exact ⟨rfl,(meets_of_ok (observe_apply _ w)).mpr told⟩
    refine (observes.bind fun _ => delivers).of_eq (fun w related => ?_) fun w related => ?_
    · rw [forward_entry (same w related) current next (way ▸ onward) holding]
      exact congrArg (fun rest => (observe _ >>= fun _ => rest) w) (perform_deliver fuel filter _ event)
    · have listing : (c.entry ref id).filter = some filter := holding
      rw [List.map_cons,expand,listing]
      rfl

/-- An event that is fired through a chain, whatever has been done to the chain before, does what its
expansion over the list of entries does, forth or back; and however it ends, it leaves every chain as
it was. -/
theorem fire_expands {w : World σ} (reached : w.Reached) {event : Event}
    (calm : w.Calm passive ref event.outbound) (fuel : Nat) :
    fire (performWith fuel) ref event w =
        expand ref
          (if event.outbound then (w.store.chain ref).getAllReversed ref
            else (w.store.chain ref).getAll ref)
          fuel ⟨ref,Chain.entrance event.outbound,0⟩ event w ∧
      wp (fire (performWith fuel) ref event) (fun _ w' => w'.store.chain = w.store.chain)
        (fun _ w' => w'.store.chain = w.store.chain) w := by
  obtain ⟨ids,holds⟩ := reached.inOrder ref
  have enters : (⟨ref,Chain.entrance event.outbound,0⟩ : Handle) =
      (w.store.chain ref).handle ref (Chain.entrance event.outbound) := by
    have never : ((w.store.chain ref).slot (Chain.entrance event.outbound)).generation = 0 :=
      holds.ends _ (by cases event.outbound <;> simp [Chain.entrance])
    rw [Chain.handle,never]
  have current : (w.store.chain ref).isCurrent
      ((w.store.chain ref).handle ref (Chain.entrance event.outbound)) = true := by
    refine holds.isCurrent ref ?_
    cases event.outbound <;> simp [Chain.entrance]
  have agrees := agree_forward holds rfl calm (holds.traverses event.outbound)
    (fun id member => by split at member <;> simpa using member) rfl current fuel rfl
  obtain ⟨same,ends⟩ := agrees w (Lawful.refl w)
  unfold fire
  rw [enters,holds.entries_eq ref event.outbound]
  refine ⟨same,wp_of_ends ends ?_ ?_⟩
  · intro _ w' calms
    exact (calms calm).2.chain
  · intro _ w' calms
    exact (calms calm).2.chain

/-- Passes an event on twice and catches what comes back the first time. -/
def twice : Invocation → Script Unit
  | .event event ref handle =>
    .call (.print false [1]) fun _ =>
    .attempt (.call (.forward handle ref event) .done) fun _ =>
    .call (.print false [2]) fun _ => .call (.forward handle ref event) fun _ =>
    .call (.print false [3]) fun _ => .done .unit
  | _ => .done .unit

def refusing : Invocation → Script Unit := fun _ =>
  .call (.print false [4]) fun _ => .fail (.logic "refused")

def coding : Script Unit := .define refusing fun _ => .define twice fun _ => .done .unit

/-- Slot 3 comes before slot 2, which has been freed once. -/
def arranging : Script Unit :=
  .call (.newHandler (.custom 0)) fun _ => .call (.newProcessor (.loopback 0)) fun _ =>
  .call (.newSession (some 0) (some 0) 4 .unlimited) fun _ => .call (.newFilter (.custom "twice" 1)) fun _ =>
  .call (.newFilter .noop) fun _ =>
  .call (.add 0 .last "gone" (some 1)) fun _ => .call (.add 0 .last "own" (some 0)) fun _ =>
  .call (.remove 0 "gone") fun _ => .call (.add 0 .last "last" (some 1)) fun _ => .done .unit

def coded : World Unit := { own := (), code := #[refusing,twice] }

def arranged : World Unit := (arranging.execute 8 coded).2

theorem twice_onward (handle : Handle) {event : Event} (way : event.outbound = outbound) :
    (twice (.event event ref handle)).Within (Call.Onward passive handle ref outbound) := by
  refine .call (.inl rfl) fun _ => .attempt ?_ fun _ => .call (.inl rfl) fun _ => ?_
  · exact .call (.inr ⟨event,way,rfl⟩) fun reply => .done reply
  · exact .call (.inr ⟨event,way,rfl⟩) fun _ => .call (.inl rfl) fun _ => .done .unit

theorem arranged_reached : arranged.Reached ∧ coded.Evolves .free arranged := by
  have ran : coding.execute 8 { own := () } = (.replied .unit,coded) := rfl
  have before : coded.Reached := by
    refine .run (.fresh ()) ran (fun out => by cases out) fun ref id => ?_
    change 0 < 0 + 2 ^ 32
    omega
  have ended : (arranging.execute 8 coded).1 ≠ .outOfFuel := by decide +kernel
  unfold arranged
  exact ⟨before.run_of_short ended (by decide +kernel),Script.execute_evolves (Prod.eta _).symm ended⟩

theorem arranged_calm : arranged.Calm (fun code => code = 0) 0 false where
  present := by decide +kernel
  filters e member id holding := by
    have entries : (arranged.store.chain 0).getAll 0 =
        [⟨"own",some 0,⟨0,3,0⟩⟩,⟨"last",some 1,⟨0,2,1⟩⟩] := by decide +kernel
    have own : arranged.store.filters[0]?.map Filter.code? = some (some 1) := by decide +kernel
    have last : arranged.store.filters[1]?.map Filter.code? = some none := by decide +kernel
    obtain ⟨f,found,coded⟩ := Option.map_eq_some_iff.mp own
    obtain ⟨f',found',plain⟩ := Option.map_eq_some_iff.mp last
    rw [entries] at member
    rcases List.mem_cons.mp member with rfl | member
    · cases holding
      refine ⟨f,found,fun code same => ?_⟩
      cases coded.symm.trans same
      exact ⟨twice,arranged_reached.2.defined rfl,fun event way => twice_onward _ way⟩
    · cases List.mem_singleton.mp member
      cases holding
      exact ⟨f',found',fun code same => by cases plain.symm.trans same⟩
  handler _ := by
    have custom : arranged.store.handlers[(arranged.store.session 0).handler]? = some (.custom 0) := by
      decide +kernel
    exact ⟨_,custom,fun code same => (Handler.custom.inj same).symm⟩
  processor out := by cases out
  listeners id listener member := by
    have none : arranged.store.futures = #[] := by decide +kernel
    rw [Store.future,none] at member
    cases member
  still code member := by
    subst member
    exact ⟨refusing,arranged_reached.2.defined rfl,fun how => .call rfl fun _ => .fail _⟩

def printed (s : Store) : List Bytes :=
  s.journal.reverse.filterMap fun
    | .printed _ line => some line
    | _ => none

/-- The failure that the filter does not catch reaches the caller. -/
theorem twice_expands :
    fire (performWith 6) 0 (.messageReceived (.bytes [])) arranged =
        expand 0 ((arranged.store.chain 0).getAll 0) 6 ⟨0,Chain.head,0⟩ (.messageReceived (.bytes []))
          arranged ∧
      (match fire (performWith 6) 0 (.messageReceived (.bytes [])) arranged with
      | .error (.failed _) w => printed w.store
      | _ => []) = [[1],[4],[2],[4]] :=
  ⟨(fire_expands arranged_reached.1 arranged_calm 6).1,by decide +kernel⟩

end Effect
end SessionPipeline
