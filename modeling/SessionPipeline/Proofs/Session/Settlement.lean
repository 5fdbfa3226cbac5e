import SessionPipeline.Proofs.Effect.Ending
import SessionPipeline.Proofs.Session.Happening

/-! How a future is settled, whatever code completes it, listens to it and is told, from outside and from
inside its listeners to any depth. The first completion decides, and each listener is told once, as soon as
the future is decided and the listener has been registered. -/
namespace SessionPipeline

open Effect World

variable {σ : Type} {future : FutureId}

/-- However the computation returns or fails, a tale tells what happens to the future meanwhile. -/
def Recounts (future : FutureId) (α : Type) (m : Effect σ α) : Prop :=
  ∀ w, ends m (fun a w' => ∃ marks, Tale future [] m w marks (.ok a) w')
    (fun failure w' => ∃ marks, Tale future [] m w marks (.error failure) w') (fun _ => True) w

instance (future : FutureId) : Lasting future (Recounts future : (α : Type) → Effect σ α → Prop) where
  idle idle w := by
    obtain ⟨a,w',returned,_⟩ := idle w
    exact (ends_of_ok returned).mpr ⟨[],.idle idle returned⟩
  fail failure w := ⟨[],.failed failure w⟩
  outOfFuel _ := trivial
  bind := by
    intro α β m next first rest w
    apply ends_bind.mpr
    apply ends_mono (first w)
    · intro a w₁ ⟨before,told⟩
      apply ends_mono (rest a w₁)
      · exact fun _ _ ⟨later,told'⟩ => ⟨_,told.onward told'⟩
      · exact fun _ _ ⟨later,told'⟩ => ⟨_,told.onward told'⟩
      · exact fun _ _ => trivial
    · exact fun _ _ ⟨marks,told⟩ => ⟨marks,told.broken⟩
    · exact fun _ _ => trivial
  attempt := by
    intro α m recounts w
    apply ends_attempt.mpr
    apply ends_mono (recounts w)
    · exact fun _ _ ⟨marks,told⟩ => ⟨marks,told.tried⟩
    · exact fun _ _ ⟨marks,told⟩ => ⟨marks,told.tried⟩
    · exact fun _ _ => trivial

namespace Effect

section Telling

variable {fuel : Nat} (performs : ∀ task, Heeds (Recounts future) (performWith fuel task : Effect σ Reply))
include performs

/-- Listeners of a future that is done are told of it. -/
theorem runListeners_tells (listeners : List CodeId) {w : World σ}
    (done : (w.store.future future).isDone = true) :
    ends (runListeners (performWith fuel) future listeners)
      (fun _ w' => ∃ marks,
        Tale future listeners (runListeners (performWith fuel) future listeners) w marks (.ok ()) w')
      (fun failure w' => ∃ marks,
        Tale future listeners (runListeners (performWith fuel) future listeners) w marks (.error failure) w')
      (fun _ => True) w := by
  induction listeners generalizing w with
  | nil => exact ⟨[],.idle (fun v => ⟨(),v,rfl,.refl v⟩) rfl⟩
  | cons listener rest ih =>
    have runs : Heeds (Recounts future) (runCode (performWith fuel) listener (.completed future)) :=
      (performs _).bind fun _ => heeds_pure ()
    have recounts := runs (w.record (.notified future listener))
    unfold ends at recounts ⊢
    rw [runListeners_cons,bind_apply]
    cases ended : runCode (performWith fuel) listener (.completed future)
      (w.record (.notified future listener)) with
    | ok _ w₁ =>
      rw [ended] at recounts
      obtain ⟨inside,tale⟩ := recounts
      -- what the listener does leaves the future done, so the others find what it found
      have kept : w₁.store.future future = w.store.future future :=
        WriteFuture.replay_done done tale.replays
      apply ends_mono (ih (kept ▸ done))
      · exact fun _ _ ⟨_,others⟩ => ⟨_,.told done tale others⟩
      · exact fun _ _ ⟨_,others⟩ => ⟨_,.told done tale others⟩
      · exact fun _ _ => trivial
    | error stop w₁ =>
      cases stop with
      | failed failure =>
        rw [ended] at recounts
        obtain ⟨inside,tale⟩ := recounts
        exact ⟨_,.threw done tale⟩
      | outOfFuel => trivial

theorem complete_recounts (outcome : Outcome) :
    Heeds (Recounts future) (complete (performWith fuel) future outcome : Effect σ Bool) := by
  intro w
  cases done : (w.store.future future).isDone with
  | true => exact (ends_of_ok (complete_done done outcome)).mpr ⟨_,.refused done⟩
  | false =>
    by_cases made : future < w.store.futures.size
    · have decided : ((w.decide future outcome).store.future future).isDone = true := by
        rw [Tale.future_decide made]
        rfl
      unfold ends
      rw [complete_waiting done]
      apply ends_bind.mpr
      apply ends_mono (runListeners_tells performs _ decided)
      · exact fun _ _ ⟨_,tells⟩ => ⟨_,.settled made done tells⟩
      · exact fun _ _ ⟨_,tells⟩ => ⟨_,.settled made done tells⟩
      · exact fun _ _ => trivial
    · have absent := Nat.le_of_not_lt made
      have nobody : (w.store.future future).listeners = [] := by
        rw [Store.future,Array.getD_eq_getD_getElem?,Array.getElem?_eq_none absent]
        rfl
      have returned : complete (performWith fuel) future outcome w = .ok true (w.decide future outcome) := by
        rw [complete_waiting done,nobody]
        rfl
      exact (ends_of_ok returned).mpr ⟨[],.unmade absent returned (.modify w (.inr absent) _)⟩

theorem listen_recounts (listener : CodeId) :
    Heeds (Recounts future) (listen (performWith fuel) future listener : Effect σ Unit) := by
  intro w
  cases done : (w.store.future future).isDone with
  | true =>
    unfold ends
    rw [listen_done done]
    apply ends_mono (runListeners_tells performs [listener] done)
    · exact fun _ _ ⟨_,tells⟩ => ⟨_,.late done tells⟩
    · exact fun _ _ ⟨_,tells⟩ => ⟨_,.late done tells⟩
    · exact fun _ _ => trivial
  | false =>
    have returned : listen (performWith fuel) future listener w = .ok () (w.await future listener) :=
      listen_waiting done listener
    apply (ends_of_ok returned).mpr
    by_cases made : future < w.store.futures.size
    · exact ⟨_,.gathered made done⟩
    · have absent := Nat.le_of_not_lt made
      exact ⟨[],.unmade absent returned (.modify w (.inr absent) _)⟩

end Telling

/-- Whatever code there is, a tale tells what happens to a future while it runs. -/
theorem ofScript_recounts (future : FutureId) (fuel : Nat) (script : Script σ) :
    Heeds (Recounts future) (ofScript (performWith fuel) script) :=
  heeds_ofScript (performWith_minds (fun _ => complete_recounts) (fun _ => listen_recounts) fuel) script

end Effect

/-- What the happenings of a future come to. A call that asks for an outcome takes effect if and only if it
is the first to ask, and what was decided stays as it is. Whoever is told finds the outcome that remains,
and history has those who were told. Nobody is told more often than he was registered, and where none
throws everybody who does not wait is told just as often; when the future has been decided nobody waits. -/
structure Settlement (future : FutureId) (w : World σ) (marks : List Happening) (w' : World σ) : Prop where
  first : ∀ before h later asked, marks = before ++ h :: later → h.attempt? = some asked →
    h = if ((w.store.future future).outcome.or (before.findSome? Happening.attempt?)).isSome
      then .refused asked else .settled asked
  outcome : (w'.store.future future).outcome =
    (w.store.future future).outcome.or (marks.findSome? Happening.attempt?)
  fixed : (w.store.future future).isDone = true → w'.store.future future = w.store.future future
  found : ∀ listener found, .told listener found ∈ marks →
    (w'.store.future future).isDone = true ∧ found = (w'.store.future future).outcome
  recorded : w'.store.told future = w.store.told future ++ tellings marks
  decides : (w.store.future future).isDone = false → (w'.store.future future).isDone = true →
    Decides future w marks ∧ (w'.store.future future).listeners = []
  once : ∀ listener, (tellings marks).count listener + (w'.store.future future).listeners.count listener ≤
    (w.store.future future).listeners.count listener + (registered marks).count listener
  all : Smooth marks → (tellings marks ++ (w'.store.future future).listeners).Perm
    ((w.store.future future).listeners ++ registered marks)

theorem Tale.settlement {α : Type} {m : Effect σ α} {marks : List Happening} {w w' : World σ}
    {result : Except Failure α} (tale : Tale future [] m w marks result w') :
    Settlement future w marks w' where
  first before h later asked split asks := by
    subst split
    exact WriteFuture.replay_first tale.replays asks
  outcome := WriteFuture.replay_outcome tale.replays
  fixed done := WriteFuture.replay_done done tale.replays
  found listener found told := WriteFuture.replay_told tale.replays told
  recorded := tale.recorded
  decides waiting done := by
    rcases tale.gathers_or_decides waiting with ⟨open',_⟩ | decides
    · exact absurd done (Bool.eq_false_iff.mp open')
    · exact ⟨decides,WriteFuture.replay_taken waiting done tale.replays⟩
  once listener := by
    obtain ⟨lost,_,sum⟩ := tale.counted listener
    simp only [List.count_nil] at sum
    omega
  all smooth := by
    rw [List.perm_iff_count]
    intro listener
    obtain ⟨lost,kept,sum⟩ := tale.counted listener
    rw [kept smooth] at sum
    simpa using sum

/-- Whatever a script does until it returns or fails, and whatever code it runs: a tale tells what happens to
each future meanwhile, those that are made on the way included, and it comes to a settlement. -/
theorem Script.execute_settles {fuel : Nat} {script : Script σ} {w w' : World σ} {ending : Ending}
    (ran : script.execute fuel w = (ending,w')) (ended : ending ≠ .outOfFuel) (future : FutureId) :
    ∃ marks result, Tale future [] (ofScript (performWith fuel) script) w marks result w' ∧
      Settlement future w marks w' := by
  have recounts := ofScript_recounts future fuel script w
  unfold ends at recounts
  unfold Script.execute at ran
  split at ran
  · rename_i stopped
    rw [stopped] at recounts
    cases ran
    obtain ⟨marks,tale⟩ := recounts
    exact ⟨marks,_,tale,tale.settlement⟩
  · rename_i stopped
    rw [stopped] at recounts
    cases ran
    obtain ⟨marks,tale⟩ := recounts
    exact ⟨marks,_,tale,tale.settlement⟩
  · cases ran
    exact absurd rfl ended

/-- The first listener tries to complete the future again and registers the second one once more. -/
def nosy : World Unit where
  own := ()
  store := { futures := #[{}] }
  code := #[fun _ => .call (.complete 0 (.failed none)) fun _ => .invoke (.listen 0 1),
    fun _ => .done .unit]

def nosyRun : Script Unit :=
  .call (.listen 0 0) fun _ => .call (.listen 0 1) fun _ => .invoke (.complete 0 .written)

def nosyEnd : Ending × World Unit := nosyRun.execute 8 nosy

theorem execute_settles_nosy : ∃ marks result,
    Tale 0 [] (ofScript (performWith 8) nosyRun) nosy marks result nosyEnd.2 ∧
      Settlement 0 nosy marks nosyEnd.2 ∧ tellings marks = [0,1,1] ∧
      (nosyEnd.2.store.future 0).outcome = some .written := by
  have ended : nosyEnd.1 ≠ .outOfFuel := by decide +kernel
  obtain ⟨marks,result,tale,settlement⟩ :=
    Script.execute_settles (rfl : nosyRun.execute 8 nosy = (nosyEnd.1,nosyEnd.2)) ended 0
  have told : nosyEnd.2.store.told 0 = [0,1,1] := by decide +kernel
  have same : nosyEnd.2.store.told 0 = tellings marks := settlement.recorded
  refine ⟨marks,result,tale,settlement,same.symm.trans told,?_⟩
  decide +kernel

end SessionPipeline
