import SessionPipeline.Proofs.Effect.Execution

/-! Runs whose hooks are watched apart. Within a hook, and all that is done there, code may have to
keep to stricter terms than elsewhere; an edit that meets only such hooks can rely on them. -/
namespace SessionPipeline

namespace Effect

variable {σ : Type} {hooks stops : Watch σ}

/-- Performs a task while it is watched, and hooks and all within them by a watch of their own. -/
def performAround (hooks stops : Watch σ) : Nat → Perform σ
  | 0, _ => throw .outOfFuel
  | fuel + 1, task =>
    match task with
    | .run _ (.hook ..) => performUntil hooks (fuel + 1) task
    | _ => do
      pause stops (.task task)
      taskUntil stops (performAround hooks stops fuel) task

theorem performAround_same (stops : Watch σ) (fuel : Nat) :
    performAround stops stops fuel = performUntil stops fuel := by
  induction fuel with
  | zero => rfl
  | succ fuel ih =>
    funext task
    unfold performAround
    rw [ih]
    split <;> rfl

end Effect

/-- The world in which a run ends or is stopped whose hooks are watched apart. -/
def Script.around {σ : Type} (hooks stops : Watch σ) (fuel : Nat) (script : Script σ) (w : World σ) :
    World σ :=
  (Effect.interpretUntil stops (Effect.answer (Effect.performAround hooks stops fuel)) script).leaves w

theorem Script.around_same {σ : Type} (stops : Watch σ) (fuel : Nat) (script : Script σ)
    (w : World σ) : script.around stops stops fuel w = script.until stops fuel w := by
  unfold around «until»
  rw [Effect.performAround_same]

namespace Effect

variable {σ : Type} {R H : Contract σ} [Permissive R] [Permissive H] {hooks stops : Watch σ}

/-- Hooks keep to this contract. -/
abbrev Hooked (H : Contract σ) (perform : Perform σ) : Prop :=
  ∀ code hook name handle, Keeping H (perform (.run code (.hook hook name handle)))

omit [Permissive R] [Permissive H] in
theorem Keeping.weaken {α : Type} {m : Effect σ α} (keeping : Keeping H m)
    (ended : ∀ w w', H.ended w w' → R.ended w w') (stopped : ∀ w w', H.stopped w w' → R.stopped w w') :
    Keeping R m := fun w =>
  ends_mono (keeping w) (fun _ => ended w) (fun _ => ended w) (stopped w)

/-- What holds of how a computation ends holds together with how it has ended. -/
theorem ends_told {α : Type} {body : Effect σ α} {ok : α → World σ → Prop}
    {failed : Failure → World σ → Prop} {stopped : World σ → Prop} {w : World σ}
    (holds : ends body ok failed stopped w) :
    ends body (fun a w' => body w = .ok a w' ∧ ok a w')
      (fun failure w' => body w = .error (.failed failure) w' ∧ failed failure w') stopped w := by
  unfold ends at holds ⊢
  split
  · rename_i ended
    rw [ended] at holds
    exact ⟨ended,holds⟩
  · rename_i ended
    rw [ended] at holds
    exact ⟨ended,holds⟩
  · rename_i ended
    rw [ended] at holds
    exact holds

omit [Permissive R] [Permissive H] in
/-- What goes on behind an attempt that keeps another contract, told how the attempt ended. -/
theorem meets_attempt {α β : Type} {body : Effect σ α} {next : Except Failure α → Effect σ β}
    {w₀ w : World σ} (keeping : Keeping H body) (stops : ∀ w', H.stopped w w' → R.stopped w₀ w')
    (returned : ∀ a w', body w = .ok a w' → H.ended w w' → Meets R w₀ (next (.ok a)) w')
    (failed : ∀ failure w', body w = .error (.failed failure) w' → H.ended w w' →
      Meets R w₀ (next (.error failure)) w') : Meets R w₀ (attempt body >>= next) w := by
  rw [meets_bind,ends_attempt]
  exact ends_mono (ends_told (keeping w)) (fun a w' ended => returned a w' ended.1 ended.2)
    (fun failure w' ended => failed failure w' ended.1 ended.2) stops

omit [Permissive H] in
/-- Who may edit nothing has no edits to account for. -/
theorem edits_none (none : ∀ ref, ¬ H.terms.edits ref) (perform : Perform σ) : Edits H perform where
  calls {c w} editing fits := by
    cases c with
    | add ref | replace ref | addAll ref => exact absurd fits.1 (none ref)
    | remove ref | removeFilter ref | clear ref => exact absurd fits (none ref)
    | _ => cases editing
  clears may := absurd may (none _)

section Around

variable (gentle : hooks.Abides H.terms) (hookEdits : ∀ perform, Performs H perform → Edits H perform)
include gentle hookEdits

theorem hooked_performAround (stops : Watch σ) (fuel : Nat) : Hooked H (performAround hooks stops fuel) := by
  intro code hook name handle w
  cases fuel with
  | zero => exact Lawful.stop (Lawful.refl w)
  | succ fuel => exact performUntil_keeps gentle hookEdits (fuel + 1) _ w trivial

variable (abides : stops.Abides R.terms)
  (ended : ∀ w w', H.ended w w' → R.ended w w') (stopped : ∀ w w', H.stopped w w' → R.stopped w w')
  (edits : ∀ perform, Performs R perform → Hooked H perform → Edits R perform)
include abides ended stopped edits

theorem performAround_keeps (fuel : Nat) : Performs R (performAround hooks stops fuel) := by
  have hooked := hooked_performAround gentle hookEdits stops
  induction fuel with
  | zero => exact fun _ w _ => Lawful.stop (Lawful.refl w)
  | succ fuel ih =>
    intro task w admitted
    have elsewhere : Meets R w (do
        pause stops (.task task)
        taskUntil stops (performAround hooks stops fuel) task) w :=
      .behind_pause (Lawful.refl w) fun _ => taskUntil_keeps ih (edits _ ih (hooked fuel)) abides admitted
    cases task with
    | run code how =>
      cases how with
      | hook hook name handle =>
        exact (hooked (fuel + 1) code hook name handle).weaken ended stopped w
      | _ => exact elsewhere
    | _ => exact elsewhere

/-- What a run leaves behind whose hooks are watched apart. -/
theorem around_keeps (fuel : Nat) (script : Script σ) (w : World σ) :
    R.stopped w (script.around hooks stops fuel w) := by
  have performs := performAround_keeps gentle hookEdits abides ended stopped edits fuel
  have hooked := hooked_performAround gentle hookEdits stops fuel
  have keeps := interpretUntil_keeps (fun c next w passed =>
    answer_keeps performs (edits _ performs hooked) (abides c next w passed)) script w
  exact ends_leaves (ends_mono keeps (fun _ _ => Lawful.stop) (fun _ _ => Lawful.stop)
    fun _ stopped => stopped)

end Around
end Effect
end SessionPipeline
