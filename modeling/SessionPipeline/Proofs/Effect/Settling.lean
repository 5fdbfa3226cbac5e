import SessionPipeline.Proofs.Effect.Basic

/-! Runs that end well. A computation settles when, from some depth of tasks within tasks on, it
returns and what it returns does not depend on the depth any more. -/
namespace SessionPipeline.Effect

variable {σ α β : Type} {w w' : World σ} {P : α → World σ → Prop}

/-- With fuel enough the computation returns, always the same, and that satisfies `P`. -/
def Settles (body : Nat → Effect σ α) (w : World σ) (P : α → World σ → Prop) : Prop :=
  ∃ a w', P a w' ∧ ∃ enough, ∀ fuel, enough ≤ fuel → body fuel w = .ok a w'

theorem settles_of_ok {body : Nat → Effect σ α} {a : α} (returned : ∀ fuel, body fuel w = .ok a w')
    (holds : P a w') : Settles body w P := ⟨a,w',holds,0,fun fuel _ => returned fuel⟩

theorem settles_pure {a : α} (holds : P a w) : Settles (fun _ => pure a) w P :=
  settles_of_ok (fun _ => rfl) holds

/-- A computation settles as another one does that it comes down to. -/
theorem Settles.from {body body' : Nat → Effect σ α} (settles : Settles body' w' P)
    (same : ∀ fuel, body fuel w = body' fuel w') : Settles body w P := by
  obtain ⟨a,v,holds,enough,returned⟩ := settles
  exact ⟨a,v,holds,enough,fun fuel more => (same fuel).trans (returned fuel more)⟩

theorem Settles.bind {first : Nat → Effect σ β} {next : Nat → β → Effect σ α} {Q : β → World σ → Prop}
    (settles : Settles first w Q)
    (later : ∀ b v, Q b v → Settles (fun fuel => next fuel b) v P) :
    Settles (fun fuel => first fuel >>= next fuel) w P := by
  obtain ⟨b,v,holds,enough,returned⟩ := settles
  obtain ⟨a,u,ended,more,onward⟩ := later b v holds
  refine ⟨a,u,ended,max enough more,fun fuel most => ?_⟩
  obtain ⟨first_enough,later_enough⟩ := Nat.max_le.mp most
  exact (bind_of_ok (returned fuel first_enough)).trans (onward fuel later_enough)

/-- A task settles one level deeper than what it does. -/
theorem settles_task {task : Task} {P : Reply → World σ → Prop}
    (settles : Settles (fun fuel => ofTask (performWith fuel) task) w P) :
    Settles (fun fuel => performWith fuel task) w P := by
  obtain ⟨a,v,holds,enough,returned⟩ := settles
  refine ⟨a,v,holds,enough + 1,fun fuel more => ?_⟩
  cases fuel with
  | zero => cases more
  | succ fuel => exact returned fuel (Nat.le_of_succ_le_succ more)

section Unit

variable {Q : World σ → Prop}

/-- A task whose reply nobody wants. -/
theorem settles_performed {task : Task}
    (settles : Settles (fun fuel => ofTask (performWith fuel) task) w fun _ => Q) :
    Settles (fun fuel => do let _ ← performWith fuel task) w fun _ => Q :=
  (settles_task settles).bind fun _ _ holds => settles_pure holds

theorem settles_unit {body : Nat → Effect σ Unit} (settles : Settles body w fun _ => Q) :
    Settles (fun fuel => do body fuel; return Reply.unit) w fun _ => Q :=
  settles.bind fun _ _ holds => settles_pure holds

theorem settles_delivered {id : FilterId} {handle : Handle} {ref : SessionRef} {event : Event}
    (settles : Settles (fun fuel => deliver (performWith fuel) id handle ref event) w fun _ => Q) :
    Settles (fun fuel => do let _ ← performWith fuel (.deliver id handle ref event)) w fun _ => Q :=
  settles_performed (settles_unit settles)

theorem settles_draining {processor : ProcessorId} {ref : SessionRef}
    (settles : Settles (fun fuel => drain (performWith fuel) processor ref) w fun _ => Q) :
    Settles (fun fuel => do let _ ← performWith fuel (.drain processor ref)) w fun _ => Q :=
  settles_performed (settles_unit settles)

end Unit

/-- A script, in the terms in which it is performed. -/
def Concludes (script : Script σ) (w : World σ) (P : Reply → World σ → Prop) : Prop :=
  Settles (fun fuel => ofScript (performWith fuel) script) w P

section Concludes

variable {P : Reply → World σ → Prop}

theorem settles_run {code : CodeId} {how : Invocation} {body : Invocation → Script σ}
    (defined : w.code[code]? = some body) {Q : World σ → Prop}
    (concludes : Concludes (body how) w fun _ => Q) :
    Settles (fun fuel => runCode (performWith fuel) code how) w fun _ => Q := by
  refine settles_performed (concludes.from fun fuel => ?_)
  rw [ofTask,bind_of_ok (get_apply w),defined]

theorem concludes_done {reply : Reply} (holds : P reply w) : Concludes (.done reply) w P :=
  settles_pure holds

theorem concludes_look {next : Store → Script σ} (concludes : Concludes (next w.store) w P) :
    Concludes (.look next) w P := concludes

theorem concludes_get {next : σ → Script σ} (concludes : Concludes (next w.own) w P) :
    Concludes (.get next) w P := concludes

theorem concludes_set {own : σ} {next : Script σ} (concludes : Concludes next { w with own := own } P) :
    Concludes (.set own next) w P := concludes

theorem concludes_call {c : Call} {next : Reply → Script σ} {Q : Reply → World σ → Prop}
    (settles : Settles (fun fuel => answer (performWith fuel) c) w Q)
    (later : ∀ reply v, Q reply v → Concludes (next reply) v P) : Concludes (.call c next) w P :=
  settles.bind later

/-- A call is answered where the sessions that it names are there. -/
theorem settles_answer {c : Call} (present : ∀ ref ∈ c.sessions, ref < w.store.sessions.size)
    (settles : Settles (fun fuel => ofCall (performWith fuel) c) w P) :
    Settles (fun fuel => answer (performWith fuel) c) w P :=
  settles.from fun _ => bind_of_ok (needSessions_apply present)

/-- A script that concludes replies the same at every depth that is enough. -/
theorem Concludes.replies {script : Script σ} (concludes : Concludes script w P) :
    ∃ reply w' enough, P reply w' ∧
      ∀ fuel, enough ≤ fuel → script.execute fuel w = (.replied reply,w') := by
  obtain ⟨reply,w',holds,enough,returned⟩ := concludes
  refine ⟨reply,w',enough,holds,fun fuel more => ?_⟩
  have ended : ofScript (performWith fuel) script w = .ok reply w' := returned fuel more
  rw [Script.execute,ended]

end Concludes
end SessionPipeline.Effect
