import SessionPipeline.Proofs.Chain.Course

/-! The worlds that an application can come by, between its runs and during them. -/
namespace SessionPipeline
namespace World

variable {σ : Type} {w : World σ}

/-- The worlds that runs of scripts reach from an empty one, each run having ended and freed no slot
2^32 times. -/
inductive Reached : World σ → Prop
  | fresh (own : σ) : Reached { own := own }
  | run {w w' : World σ} {script : Script σ} {fuel : Nat} {ending : Ending} (before : Reached w)
      (ran : script.execute fuel w = (ending,w')) (ended : ending ≠ .outOfFuel)
      (sparing : w.Sparing w') : Reached w'

theorem fresh_inOrder (own : σ) : ({ own := own } : World σ).InOrder fun _ => [] := by
  intro r
  rw [chain_absent (Nat.not_lt_zero r)]
  exact ⟨[],Chain.empty_holds⟩

theorem Reached.inOrder (reached : w.Reached) : w.InOrder fun _ => [] := by
  induction reached with
  | fresh own => exact fresh_inOrder own
  | run _ ran ended sparing ih => exact ((Script.execute_evolves ran ended).along _ sparing ih).inOrder

theorem Reached.course (reached : w.Reached) :
    ∃ own, Course .free ((fun _ => []),{ own := own }) ((fun _ => []),w) := by
  induction reached with
  | fresh own => exact ⟨own,.refl⟩
  | run before ran ended sparing ih =>
    obtain ⟨own,course⟩ := ih
    exact ⟨own,course.trans ((Script.execute_evolves ran ended).along _ sparing before.inOrder).course⟩

/-- The worlds in which runs of scripts from a reached one end or are stopped, having freed no slot
2^32 times. -/
inductive Occurs : World σ → Prop
  | during {w : World σ} (reached : w.Reached) (stops : Watch σ) (fuel : Nat) (script : Script σ)
      (sparing : w.Sparing (script.until stops fuel w)) : Occurs (script.until stops fuel w)

theorem Occurs.course (occurs : w.Occurs) :
    ∃ own flight, Course .free ((fun _ => []),{ own := own }) (flight,w) := by
  cases occurs with
  | during reached stops fuel script sparing =>
    obtain ⟨own,before⟩ := reached.course
    obtain ⟨flight,course⟩ := (Script.until_midway stops.abides_free fuel script _).course _
      sparing reached.inOrder
    exact ⟨own,flight,before.trans course⟩

theorem Occurs.holds (occurs : w.Occurs) (ref : SessionRef) :
    ∃ ids flight, (w.store.chain ref).Holds ids flight := by
  obtain ⟨own,flight,course⟩ := occurs.course
  obtain ⟨ids,holds⟩ := course.inOrder (fresh_inOrder own) ref
  exact ⟨ids,_,holds⟩

/-- A slot is freed at most as often as anything happens at all. -/
theorem sparing_of_short {w w' : World σ} (short : w'.store.journal.length < 2 ^ 32) : w.Sparing w' := by
  intro ref id
  have bound := List.countP_le_length (p := (·.frees ref id)) (l := w'.store.journal)
  unfold Store.releases
  omega

theorem Reached.run_of_short {script : Script σ} {fuel : Nat} (before : w.Reached)
    (ended : (script.execute fuel w).1 ≠ .outOfFuel)
    (short : (script.execute fuel w).2.store.journal.length < 2 ^ 32) :
    (script.execute fuel w).2.Reached := .run before rfl ended (sparing_of_short short)

end World
end SessionPipeline
