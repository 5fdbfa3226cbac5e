import SessionPipeline.Proofs.Effect.Fuel
import SessionPipeline.Proofs.Effect.Moment

/-! Two runs of which the second follows the first for as long as the first is not stopped: both return
the same or fail the same, in worlds that are related. A run that is watched may be stopped early but
does nothing that it would not do unwatched. -/
namespace SessionPipeline.Effect

variable {σ α β : Type}

/-- How a result follows one that is stopped, returned or failed. -/
inductive Followed (returns : α → World σ → World σ → Prop) (fails : World σ → World σ → Prop) :
    EStateM.Result Stop (World σ) α → EStateM.Result Stop (World σ) α → Prop
  | stopped (u : World σ) (result : EStateM.Result Stop (World σ) α) :
      Followed returns fails (.error .outOfFuel u) result
  | returned {a : α} {u v : World σ} (related : returns a u v) :
      Followed returns fails (.ok a u) (.ok a v)
  | failed (failure : Failure) {u v : World σ} (related : fails u v) :
      Followed returns fails (.error (.failed failure) u) (.error (.failed failure) v)

section Following

variable {returns : α → World σ → World σ → Prop} {fails : World σ → World σ → Prop}

theorem Followed.mono {returns' : α → World σ → World σ → Prop} {fails' : World σ → World σ → Prop}
    {result result' : EStateM.Result Stop (World σ) α} (followed : Followed returns fails result result')
    (returned : ∀ a u v, returns a u v → returns' a u v) (failed : ∀ u v, fails u v → fails' u v) :
    Followed returns' fails' result result' := by
  cases followed with
  | stopped u => exact .stopped u _
  | returned related => exact .returned (returned _ _ _ related)
  | failed failure related => exact .failed failure (failed _ _ related)

theorem Followed.bind {returns₁ : β → World σ → World σ → Prop} {fails₁ : World σ → World σ → Prop}
    {first first' : Effect σ β} {next next' : β → Effect σ α} {w v : World σ}
    (head : Followed returns₁ fails₁ (first w) (first' v))
    (rest : ∀ b u u', returns₁ b u u' → Followed returns fails (next b u) (next' b u'))
    (failed : ∀ u u', fails₁ u u' → fails u u') :
    Followed returns fails ((first >>= next) w) ((first' >>= next') v) := by
  rw [bind_apply,bind_apply]
  generalize first w = result,first' v = result' at head
  cases head with
  | stopped u => exact .stopped u _
  | returned related => exact rest _ _ _ related
  | failed failure related => exact .failed failure (failed _ _ related)

/-- What fails is returned as a failure, in worlds that the failure leaves. -/
theorem Followed.attempt {m m' : Effect σ α} {w v : World σ} {fails' : World σ → World σ → Prop}
    (followed : Followed returns fails (m w) (m' v)) :
    Followed (fun result u u' => match result with
      | .ok a => returns a u u'
      | .error _ => fails u u') fails' (attempt m w) (attempt m' v) := by
  unfold Effect.attempt
  generalize m w = result,m' v = result' at followed
  cases followed with
  | stopped u => exact .stopped u _
  | returned related => exact .returned related
  | failed failure related => exact .returned related

/-- Where the first ends the second ends the same. -/
theorem Followed.ended {m m' : Effect σ α} {w v u : World σ} {result : Except Failure α}
    {related : World σ → World σ → Prop} (followed : Followed (fun _ => related) related (m w) (m' v))
    (ended : Effect.attempt m w = .ok result u) :
    ∃ u', Effect.attempt m' v = .ok result u' ∧ related u u' := by
  unfold Effect.attempt at ended ⊢
  generalize m w = first,m' v = second at followed ended
  cases followed with
  | stopped => cases ended
  | returned related =>
    cases ended
    exact ⟨_,rfl,related⟩
  | failed failure related =>
    cases ended
    exact ⟨_,rfl,related⟩

end Following

theorem Below.behind_pause {stops : Watch σ} {moment : Moment σ} {next : Unit → Effect σ α}
    {m : Effect σ α} (below : Below (next ()) m) : Below (pause stops moment >>= next) m := by
  intro w
  rw [bind_apply]
  cases stopped : stops moment w with
  | true =>
    rw [pause_stopped stopped]
    exact .inl ⟨w,rfl⟩
  | false =>
    rw [pause_passed stopped]
    exact below w

theorem interpretUntil_below (stops : Watch σ) {respond respond' : Call → Effect σ Reply}
    (responds : ∀ c, Below (respond c) (respond' c)) (script : Script σ) :
    Below (interpretUntil stops respond script) (interpret respond' script) := by
  induction script with
  | done reply => exact .behind_pause (.refl _)
  | fail failure => exact .behind_pause (.refl _)
  | look next ih => exact .behind_pause (.after _ ih)
  | get next ih => exact .behind_pause (.after _ fun w => ih w.own)
  | set state next ih => exact .behind_pause (.after _ fun _ => ih)
  | define code next _ ih =>
    exact .behind_pause (.after _ fun w => .after _ fun _ => ih w.code.size)
  | call c next ih => exact .behind_pause ((responds c).bind ih)
  | attempt body next tried ih => exact .behind_pause (tried.attempt.bind ih)

theorem taskUntil_below (stops : Watch σ) {perform perform' : Perform σ}
    (performs : ∀ task, Below (perform task) (perform' task)) (task : Task) :
    Below (taskUntil stops perform task) (ofTask perform' task) := by
  cases task with
  | run code how =>
    refine .after _ fun w => ?_
    cases w.code[code]? with
    | some body => exact interpretUntil_below stops (below_answer performs) _
    | none => exact .refl _
  | _ =>
    rw [taskUntil]
    · exact below_ofTask performs _
    · simp

theorem performUntil_below (stops : Watch σ) (fuel : Nat) (task : Task) :
    Below (performUntil stops fuel task) (performWith fuel task) := by
  induction fuel generalizing task with
  | zero => exact .refl _
  | succ fuel ih =>
    rw [performUntil,performWith]
    exact .behind_pause (taskUntil_below stops ih task)

end SessionPipeline.Effect
