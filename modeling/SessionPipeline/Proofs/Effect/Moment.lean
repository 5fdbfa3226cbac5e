import SessionPipeline.Proofs.Effect.Evolution

/-! Runs that are stopped on the way. A run comes by a moment at each step of a script and at each task,
and whoever watches may stop it there, for good: nothing catches that. What holds wherever a run is
stopped holds at every moment at which code of an application runs. -/
namespace SessionPipeline

inductive Moment (σ : Type)
  | step (script : Script σ)
  | task (task : Task)

/-- Tells at which moments, in which worlds, a run is stopped. -/
abbrev Watch (σ : Type) := Moment σ → World σ → Bool

/-- A call that takes no request off the queue of a sealed session, writes there only requests that
there are, and makes none for a future that there is not. -/
def Call.Proper {σ : Type} (refs : SessionRef → Prop) (w : World σ) : Call → Prop
  | .pollQueue ref => ¬ refs ref
  | .fire ref event | .forward _ ref event =>
    ∀ id, event = .filterWrite id → refs ref → id < w.store.requests.size
  | .newRequest _ future =>
    ∀ ref, refs ref → ∀ id, future = some id → id < w.store.futures.size
  | _ => True

/-- A call that keeps to the terms. -/
def Call.Fits {σ : Type} (terms : Terms) (w : World σ) : Call → Prop
  | .pollQueue ref => ¬ terms.sealed ref
  | .fire ref event =>
    ∀ id, event = .filterWrite id → terms.listed ref → id < w.store.requests.size
  | .forward handle ref event =>
    (∀ id, event = .filterWrite id → terms.listed ref → id < w.store.requests.size) ∧
      (terms.tidy → handle.owner = ref)
  | .newRequest _ future =>
    ∀ ref, terms.listed ref → ∀ id, future = some id → id < w.store.futures.size
  | .setAttribute _ key _ => terms.tidy → ∀ codec, key ≠ .pending codec
  | .add ref _ _ filter => terms.edits ref ∧ (terms.tidy → ∀ id ∈ filter, id < w.store.filters.size)
  | .addAll ref entries =>
    terms.edits ref ∧ (terms.tidy → ∀ entry ∈ entries, entry.2 < w.store.filters.size)
  | .replace ref name filter => terms.edits ref ∧ (terms.tidy → ∀ id ∈ filter,
      id < w.store.filters.size ∧ ∀ old, (w.store.chain ref).get name = .ok (some old) →
        (w.store.filter old).isCodec = true → (w.store.filter id).isCodec = true)
  | .remove ref _ | .removeFilter ref _ | .clear ref => terms.edits ref
  | _ => True

namespace Watch

variable {σ : Type}

/-- Every call that does not keep to the terms is stopped at. -/
def Abides (terms : Terms) (stops : Watch σ) : Prop :=
  ∀ c next w, stops (.step (.call c next)) w = false → c.Fits terms w

def never : Watch σ := fun _ _ => false

/-- Every improper call is stopped at. -/
def Careful (refs : SessionRef → Prop) (stops : Watch σ) : Prop :=
  ∀ c next w, stops (.step (.call c next)) w = false → c.Proper refs w

theorem fits_free (c : Call) (w : World σ) : c.Fits .free w := by
  cases c <;> simp [Call.Fits,Terms.free]

theorem abides_free (stops : Watch σ) : stops.Abides .free := fun c _ w _ => fits_free c w

/-- What careful code keeps to. -/
theorem Careful.abides {refs : SessionRef → Prop} {stops : Watch σ} (careful : stops.Careful refs) :
    stops.Abides ⟨refs,refs,fun _ => True,False⟩ := by
  intro c next w going
  have proper := careful c next w going
  cases c <;> first | exact proper | exact ⟨proper,False.elim⟩ | simp [Call.Fits]

end Watch

namespace Effect

variable {σ α : Type}

def pause (stops : Watch σ) (moment : Moment σ) : Effect σ Unit := fun w =>
  if stops moment w then .error .outOfFuel w else .ok () w

/-- What a script does while it is watched. -/
def interpretUntil (stops : Watch σ) (respond : Call → Effect σ Reply) : Script σ → Effect σ Reply
  | .done reply => do
    pause stops (.step (.done reply))
    return reply
  | .fail failure => do
    pause stops (.step (.fail failure))
    fail failure
  | .look next => do
    pause stops (.step (.look next))
    interpretUntil stops respond (next (← store))
  | .get next => do
    pause stops (.step (.get next))
    interpretUntil stops respond (next (← MonadState.get).own)
  | .set own next => do
    pause stops (.step (.set own next))
    modify fun w => { w with own := own }
    interpretUntil stops respond next
  | .define code next => do
    pause stops (.step (.define code next))
    let id := (← MonadState.get).code.size
    modify fun w => { w with code := w.code.push code }
    interpretUntil stops respond (next id)
  | .call c next => do
    pause stops (.step (.call c next))
    interpretUntil stops respond (next (← respond c))
  | .attempt body next => do
    pause stops (.step (.attempt body next))
    interpretUntil stops respond (next (← attempt (interpretUntil stops respond body)))

def taskUntil (stops : Watch σ) (perform : Perform σ) : Task → Effect σ Reply
  | .run code how => do
    match (← MonadState.get).code[code]? with
    | some body => interpretUntil stops (answer perform) (body how)
    | none => return .unit
  | task => ofTask perform task

/-- Performs a task, and the tasks within it, while they are watched. -/
def performUntil (stops : Watch σ) : Nat → Perform σ
  | 0, _ => throw .outOfFuel
  | fuel + 1, task => do
    pause stops (.task task)
    taskUntil stops (performUntil stops fuel) task

/-- The world in which a computation returns, fails or is stopped. -/
def leaves (m : Effect σ α) (w : World σ) : World σ :=
  match m w with
  | .ok _ w => w
  | .error _ w => w

end Effect

/-- The world in which a watched run of a script ends or is stopped. -/
def Script.until {σ : Type} (stops : Watch σ) (fuel : Nat) (script : Script σ) (w : World σ) : World σ :=
  (Effect.interpretUntil stops (Effect.answer (Effect.performUntil stops fuel)) script).leaves w

namespace Effect

variable {σ α : Type} {stops : Watch σ} {moment : Moment σ} {w : World σ}

theorem pause_stopped (stopped : stops moment w = true) : pause stops moment w = .error .outOfFuel w :=
  if_pos stopped

theorem pause_passed (passed : stops moment w = false) : pause stops moment w = .ok () w :=
  if_neg (Bool.eq_false_iff.mp passed)

theorem pause_never_bind (moment : Moment σ) (next : Unit → Effect σ α) :
    (pause .never moment >>= next) = next () := rfl

/-- A run that nobody stops is a run that nobody watches. -/
theorem interpretUntil_never (respond : Call → Effect σ Reply) (script : Script σ) :
    interpretUntil .never respond script = interpret respond script := by
  induction script with
  | done reply => rfl
  | fail failure => rfl
  | look next ih =>
    rw [interpretUntil,pause_never_bind,interpret]
    exact bind_congr fun s => ih s
  | get next ih =>
    rw [interpretUntil,pause_never_bind,interpret]
    exact bind_congr fun w => ih w.own
  | set state next ih =>
    rw [interpretUntil,pause_never_bind,interpret]
    exact bind_congr fun _ => ih
  | define code next _ ih =>
    rw [interpretUntil,pause_never_bind,interpret]
    exact bind_congr fun w => bind_congr fun _ => ih w.code.size
  | call c next ih =>
    rw [interpretUntil,pause_never_bind,interpret]
    exact bind_congr fun reply => ih reply
  | attempt body next tried ih =>
    rw [interpretUntil,pause_never_bind,interpret,tried]
    exact bind_congr fun result => ih result

theorem performUntil_never (fuel : Nat) :
    (performUntil .never fuel : Perform σ) = performWith fuel := by
  induction fuel with
  | zero => rfl
  | succ fuel ih =>
    funext task
    rw [performUntil,pause_never_bind,performWith,ih]
    cases task with
    | run code how =>
      refine bind_congr fun w => ?_
      cases w.code[code]? with
      | some body => exact interpretUntil_never _ _
      | none => rfl
    | _ => rfl

theorem ends_leaves {m : Effect σ α} {P : World σ → Prop} (ends : ends m (fun _ => P) (fun _ => P) P w) :
    P (m.leaves w) := by
  unfold Effect.ends at ends
  unfold leaves
  split
  · rename_i ended
    rwa [ended] at ends
  · rename_i stop _ ended
    rw [ended] at ends
    cases stop <;> exact ends

variable {R : Contract σ} [Discreet R]

/-- Behind a pause a run goes on only where it is not stopped. -/
theorem Meets.behind_pause {w₀ : World σ} {next : Unit → Effect σ α} (related : R.ended w₀ w)
    (rest : stops moment w = false → Meets R w₀ (next ()) w) :
    Meets R w₀ (pause stops moment >>= next) w := by
  cases stopped : stops moment w with
  | false => exact (meets_bind_of_ok (pause_passed stopped)).mpr (rest stopped)
  | true =>
    unfold Meets ends
    rw [bind_apply,pause_stopped stopped]
    exact Discreet.stop related

/-- A watched script keeps what the calls keep at which it is not stopped. -/
theorem interpretUntil_keeps {respond : Call → Effect σ Reply}
    (responds : ∀ c next w, stops (.step (.call c next)) w = false → Meets R w (respond c) w)
    (script : Script σ) : Keeping R (interpretUntil stops respond script) := by
  have got : Keeping R (MonadState.get : Effect σ (World σ)) := fun w => Discreet.refl w
  induction script with
  | done reply => exact fun w => .behind_pause (Discreet.refl w) fun _ => keeping_pure reply w
  | fail failure => exact fun w => .behind_pause (Discreet.refl w) fun _ => keeping_fail failure w
  | look next ih =>
    have looks : Keeping R (store : Effect σ Store) := fun w => Discreet.refl w
    exact fun w => .behind_pause (Discreet.refl w) fun _ => looks.bind ih w
  | get next ih =>
    exact fun w => .behind_pause (Discreet.refl w) fun _ => got.bind (fun v => ih v.own) w
  | set state next ih =>
    have kept : Keeping R (modify fun w => { w with own := state } : Effect σ Unit) :=
      keeping_of_quiet fun w => ⟨(),_,rfl,.own w state,fun _ _ => rfl⟩
    exact fun w => .behind_pause (Discreet.refl w) fun _ => kept.bind (fun _ => ih) w
  | define code next _ ih =>
    have kept : Keeping R (modify fun w => { w with code := w.code.push code } : Effect σ Unit) :=
      keeping_of_quiet fun w => ⟨(),_,rfl,.define w code,fun _ _ => rfl⟩
    exact fun w => .behind_pause (Discreet.refl w) fun _ =>
      got.bind (fun v => kept.bind fun _ => ih v.code.size) w
  | call c next ih =>
    exact fun w => .behind_pause (Discreet.refl w) fun passed =>
      (responds c next w passed).bind fun reply _ before => (ih reply).from before
  | attempt body next tried ih =>
    exact fun w => .behind_pause (Discreet.refl w) fun _ => tried.attempt.bind ih w

end Effect

/-- Stops at every call, so hooks that are watched like this edit nothing. -/
def calling {σ : Type} : Watch σ
  | .step (.call ..),_ => true
  | _,_ => false

theorem calling_abides {σ : Type} (terms : Terms) : (calling : Watch σ).Abides terms :=
  fun _ _ _ going => by cases going

end SessionPipeline
