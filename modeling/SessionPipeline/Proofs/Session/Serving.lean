import SessionPipeline.Proofs.Session.Tending

/-! In which order a loopback announces what it sends, whatever code there is for filters, hooks,
listeners and handlers. It completes a request before it announces it, so a request that is written
while another one is completed is announced first. -/
namespace SessionPipeline

/-- Every call that is not fair is stopped at, and every attempt unless failures may be caught. -/
structure Watch.Heeds {σ : Type} (ref : SessionRef) (caught : Prop) (stops : Watch σ) : Prop where
  calls : ∀ c next w, stops (.step (.call c next)) w = false → c.Fair ref
  attempts : ∀ body next w, stops (.step (.attempt body next)) w = false → caught

namespace Effect

open World

variable {σ α : Type} {ref : SessionRef} {caught : Prop} {stops : Watch σ}

theorem Orderly.behind_pause {moment : Moment σ} {next : Unit → Effect σ α}
    (rest : ∀ w, stops moment w = false → Orderly ref caught (next ())) :
    Orderly ref caught (pause stops moment >>= next) := by
  intro w ready
  cases stopped : stops moment w with
  | true =>
    unfold Serves ends
    rw [bind_apply,pause_stopped stopped]
    exact .refl w ref
  | false =>
    apply (serves_bind_of_ok (pause_passed stopped)).mpr
    exact rest w stopped w ready

theorem orderly_interpretUntil {respond : Call → Effect σ Reply}
    (responds : ∀ c next w, stops (.step (.call c next)) w = false → Orderly ref caught (respond c))
    (attempts : ∀ body next w, stops (.step (.attempt body next)) w = false → caught)
    (script : Script σ) : Orderly ref caught (interpretUntil stops respond script) := by
  induction script with
  | done reply => exact .behind_pause fun _ _ => orderly_pure reply
  | fail failure => exact .behind_pause fun _ _ => orderly_fail failure
  | look next ih => exact .behind_pause fun _ _ => orderly_store.bind ih
  | get next ih =>
    exact .behind_pause fun _ _ => (orderly_read _ fun _ => rfl).bind fun w => ih w.own
  | set state next ih =>
    have kept : Orderly ref caught (modify fun w => { w with own := state } : Effect σ Unit) :=
      orderly_of_still fun _ => ⟨(),_,rfl,.store rfl rfl rfl⟩
    exact .behind_pause fun _ _ => kept.bind fun _ => ih
  | define code next _ ih =>
    have kept : Orderly ref caught
        (modify fun w => { w with code := w.code.push code } : Effect σ Unit) :=
      orderly_of_still fun _ => ⟨(),_,rfl,.store rfl rfl rfl⟩
    exact .behind_pause fun _ _ => (orderly_read _ fun _ => rfl).bind
      fun w => kept.bind fun _ => ih w.code.size
  | call c next ih =>
    exact .behind_pause fun w passed => (responds c next w passed).bind ih
  | attempt body next tried ih =>
    exact .behind_pause fun w passed => (tried.attempt (attempts body next w passed)).bind ih

variable (heeds : stops.Heeds ref caught)
include heeds

theorem orderly_taskUntil {perform : Perform σ} (attends : Attends ref caught perform) {task : Task}
    (fair : task.Fair ref) : Orderly ref caught (taskUntil stops perform task) := by
  have answers {m : Effect σ Unit} (orderly : Orderly ref caught m) :
      Orderly ref caught (do m; return Reply.unit) := orderly.bind fun _ => orderly_pure _
  cases task with
  | run code how =>
    apply (orderly_read _ fun _ => rfl).bind
    intro w
    split
    · apply orderly_interpretUntil
      · exact fun c next w passed => orderly_answer attends (heeds.calls c next w passed)
      · exact heeds.attempts
    · exact orderly_pure _
  | deliver filter handle r event => exact answers (orderly_deliver attends filter fair)
  | fire r event => exact answers (orderly_fire attends fair)
  | drain processor r => exact answers (orderly_drain attends processor r)
  | clear r => exact answers (orderly_clear attends r)
  | failPending r dropped => exact (orderly_failPending attends r dropped).bind fun _ => orderly_pure _

theorem performUntil_attends (fuel : Nat) : Attends ref caught (performUntil stops fuel) := by
  induction fuel with
  | zero =>
    constructor
    · exact fun _ _ w _ => .refl w ref
    · exact fun w before id _ ready marks => ⟨_,marks,.waiting .none id⟩
  | succ fuel ih =>
    constructor
    · exact fun task fair => .behind_pause fun _ _ => orderly_taskUntil heeds ih fair
    · intro w before id processor ready marks
      change Serves ref caught before (pause stops (.task (.drain processor ref)) >>= fun _ =>
        taskUntil stops (performUntil stops fuel) (.drain processor ref)) w
      cases stopped : stops (.task (.drain processor ref)) w with
      | true =>
        unfold Serves ends
        rw [bind_apply,pause_stopped stopped]
        exact ⟨_,marks,.waiting .none id⟩
      | false =>
        apply (serves_bind_of_ok (pause_passed stopped)).mpr
        exact (drain_serves ih ready marks processor).bind fun _ => orderly_pure _

end Effect

/-- Whatever a run does from where a session at a loopback is ready and nothing waits, wherever it ends
or is stopped: the requests that reach the queue are served as they come, so one that is written while
another one is completed is announced first. They are announced in the order in which they came, all but
the last perhaps, where none comes while another is completed. If the run returns nothing waits again,
and unless a failure may have been caught each is announced once for each time that it came. -/
theorem Script.until_announces {σ : Type} {ref : SessionRef} {caught : Prop} {stops : Watch σ}
    (heeds : stops.Heeds ref caught) {w v : World σ} (ready : w.Ready ref []) {fuel : Nat}
    {script : Script σ} (ran : script.until stops fuel w = v) :
    ∃ own, v.store.marks ref = w.store.marks ref ++ own ∧ Underway own ∧
      (Uninterrupted own → sents own = reaches own ∨ ∃ id, reaches own = sents own ++ [id]) ∧
      ∀ reply, Effect.interpretUntil stops (Effect.answer (Effect.performUntil stops fuel)) script w =
          .ok reply v → v.Ready ref [] ∧
        (¬ caught → (sents own).Perm (reaches own) ∧ (Uninterrupted own → sents own = reaches own)) := by
  have attends := Effect.performUntil_attends heeds fuel
  have serves := Effect.orderly_interpretUntil
    (fun c next w passed => Effect.orderly_answer attends (heeds.calls c next w passed))
    heeds.attempts script w ready
  unfold Script.until Effect.leaves at ran
  unfold Effect.Serves Effect.ends at serves
  cases ended : Effect.interpretUntil stops (Effect.answer (Effect.performUntil stops fuel)) script w with
  | ok reply v' =>
    simp only [ended] at ran serves
    subst ran
    obtain ⟨again,own,marks,served⟩ := serves
    have underway : Underway own := .served (served.imp fun _ => trivial)
    refine ⟨own,marks,underway,underway.in_order,fun _ _ => ⟨again,?_⟩⟩
    intro uncaught
    have whole := served.imp uncaught
    exact ⟨whole.sents_perm,whole.all_in_order⟩
  | error stop v' =>
    simp only [ended] at ran serves
    subst ran
    have stopped : v'.Underway ref (w.store.marks ref) := by
      cases stop with
      | failed failure =>
        obtain ⟨_,own,marks,served⟩ := serves
        exact ⟨own,marks,.served served⟩
      | outOfFuel => exact serves
    obtain ⟨own,marks,underway⟩ := stopped
    exact ⟨own,marks,underway,underway.in_order,fun _ => nofun⟩

/-- A session at a loopback, with nothing in its chain. -/
def looped : World Unit :=
  World.begin { own := (), store := { handlers := #[.adapter], processors := #[.loopback 0] } }
    { id := 1, handler := 0, processor := 0, queue := .vacant 4 4 }

theorem looped_ready : looped.Ready 0 [] := by
  have created : Ring.create .unlimited 4 = .ok (.vacant 4 4 : Ring RequestId) := by rfl
  exact World.begin_ready created rfl

/-- Stops where a failure might be caught or the sending of a request be fired by hand. -/
def tending : Watch Unit
  | .step (.attempt ..),_ | .step (.call (.forward ..) _),_
  | .step (.call (.fire _ (.messageSent _)) _),_ => true
  | _,_ => false

theorem tending_heeds (ref : SessionRef) : tending.Heeds ref False where
  calls c next w going := by
    cases c with
    | fire r event =>
      rintro id rfl
      cases going
    | forward handle r event => cases going
    | _ => trivial
  attempts _ _ _ going := by cases going

def writes : Script Unit :=
  .call (.write 0 (.bytes [1])) fun _ => .call (.write 0 (.bytes [2])) fun _ => .done .unit

def written : World Unit := writes.until tending 8 looped

theorem writes_return : ∃ reply, Effect.interpretUntil tending
    (Effect.answer (Effect.performUntil tending 8)) writes looped = .ok reply written := by
  have returns : (match Effect.interpretUntil tending
      (Effect.answer (Effect.performUntil tending 8)) writes looped with
    | .ok .. => true
    | .error .. => false) = true := by decide +kernel
  unfold written Script.until Effect.leaves
  split at returns
  · rename_i reply _ ended
    rw [ended]
    exact ⟨reply,rfl⟩
  · cases returns

theorem until_announces_writes :
    sents (written.store.marks 0) = reaches (written.store.marks 0) ∧
      sents (written.store.marks 0) = [0,1] := by
  obtain ⟨own,marks,_,_,whole⟩ :=
    Script.until_announces (tending_heeds 0) looped_ready (rfl : writes.until tending 8 looped = written)
  have same : written.store.marks 0 = own := marks
  have uninterrupted : Uninterrupted (written.store.marks 0) := by decide +kernel
  rw [same] at uninterrupted ⊢
  obtain ⟨reply,returned⟩ := writes_return
  have all := ((whole reply returned).2 id).2 uninterrupted
  refine ⟨all,?_⟩
  rw [← same]
  decide +kernel

/-- Whoever listens to the first request writes another one. -/
def chattering : Script Unit :=
  .define (fun _ => .invoke (.write 0 (.bytes [2]))) fun code =>
  .call .newFuture fun _ => .call (.newRequest (.bytes [1]) (some 0)) fun _ =>
  .call (.listen 0 code) fun _ => .call (.fire 0 (.filterWrite 0)) fun _ => .done .unit

def chattered : Ending × World Unit := chattering.execute 8 looped

/-- Nothing fails and no filter is there, and the second request is announced before the first. -/
theorem announced_inside_out :
    (match chattered.1 with
      | .replied _ => true
      | _ => false) = true ∧
    (chattered.2.store.chain 0).isEmpty = true ∧
    reaches (chattered.2.store.marks 0) = [0,1] ∧ sents (chattered.2.store.marks 0) = [1,0] := by
  decide +kernel

end SessionPipeline
