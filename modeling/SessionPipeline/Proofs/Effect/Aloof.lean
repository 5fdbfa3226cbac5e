import SessionPipeline.Proofs.Effect.Execution

/-! Contracts that do not look at a chain. Edits of that chain keep them, whatever hooks do in
between. So code that may edit any chain but one leaves that one as it is, and nothing ever takes
anything back from history. -/
namespace SessionPipeline

/-- Code that edits every chain but that of one session. -/
def Terms.aloof (ref : SessionRef) : Terms := ⟨fun _ => False,fun _ => False,(· ≠ ref),False⟩

namespace Effect

open World

variable {σ : Type}

/-- The contract does not tell what the chain of this session is, nor what is told of edits. -/
structure Overlooks (R : Contract σ) (ref : SessionRef) : Prop where
  changes : ∀ w change, R.ended w (w.mapChain ref change)
  records : ∀ (w : World σ) o, R.ended w (w.record o)

theorem Overlooks.removed {R : Contract σ} [Lawful R] {ref : SessionRef} (overlooks : Overlooks R ref)
    {w w' : World σ} {id : EntryId} (_ : (w.store.chain ref).Picks id) (hook : R.ended w w')
    (_ : (w'.store.chain ref).isCurrent ((w.store.chain ref).handle ref id) = true) :
    R.ended w (w'.dropEntry ref ((w.store.chain ref).handle ref id) ((w.store.chain ref).slot id).name) :=
  Lawful.trans hook (Lawful.trans (overlooks.changes w' _) (overlooks.records _ _))

section Overlooked

variable {R : Contract σ} [Lawful R] {perform : Perform σ} {ref : SessionRef}
  (overlooks : Overlooks R ref)
include overlooks

omit [Lawful R] in
theorem keeping_modifyChain (change : Chain → Chain) :
    Keeping R (modifyChain ref change : Effect σ Unit) :=
  keeping_of_ok fun w => ⟨(),_,rfl,overlooks.changes w change⟩

theorem keeping_edit (change : Chain → Chain) (o : Observation) : Keeping R (do
    modifyChain ref change
    observe o : Effect σ Unit) :=
  (keeping_modifyChain overlooks change).bind fun _ =>
    keeping_of_ok fun w => ⟨(),_,rfl,overlooks.records w o⟩

theorem keeping_allocateEntry (name : String) (filter : FilterId) :
    Keeping R (allocateEntry ref name filter : Effect σ Handle) :=
  (keeping_chain ref).bind fun _ => (keeping_modifyChain overlooks _).bind fun _ => keeping_pure _

/-- A new entry is linked or its slot is freed. -/
theorem keeping_decision (position : Position) (name : String) (handle : Handle)
    (result : Except Failure Unit) : Keeping R (match result with
      | .error failure => do
        discardEntry ref handle
        vetoed (.vetoedAddition name) failure
      | .ok () => do
        match (← chain ref).checkAddition name position with
        | .error failure => do
          discardEntry ref handle
          fail failure
        | .ok () => do
          linkEntry ref handle name position
          return handle : Effect σ Handle) := by
  cases result with
  | error failure => exact (keeping_edit overlooks _ _).bind fun _ => keeping_vetoed _ _
  | ok =>
    refine (keeping_chain ref).bind fun _ => ?_
    split
    · exact (keeping_edit overlooks _ _).bind fun _ => keeping_fail _
    · exact (keeping_edit overlooks _ _).bind fun _ => keeping_pure _

/-- An entry whose filter objects leaves again if it is still there. -/
theorem keeping_rollback (name : String) (handle : Handle) (result : Except Failure Unit) :
    Keeping R (match result with
      | .error failure => do
        if (← chain ref).isCurrent handle then dropEntry ref handle name
        logChain ref .debug ("rolled back " ++ name ++ " after onPostAdd failed")
        fail failure
      | .ok () => pure () : Effect σ Unit) := by
  cases result with
  | error failure =>
    have finish := keeping_logFail (R := R) (α := Unit) ref .debug
      ("rolled back " ++ name ++ " after onPostAdd failed") failure
    refine (keeping_chain ref).bind fun _ => ?_
    dsimp only
    split
    · exact (keeping_edit overlooks _ _).bind fun _ => finish
    · exact finish
  | ok => exact keeping_pure ()

theorem keeping_putBack (handle : Handle) (old : FilterId) (failure : Failure) :
    Keeping R (putBack ref handle old failure : Effect σ (Option FilterId)) := by
  refine (keeping_chain ref).bind fun _ => ?_
  dsimp only
  split
  · exact (keeping_modifyChain overlooks _).bind fun _ => keeping_fail _
  · exact keeping_fail _

theorem keeping_settlement (handle : Handle) (old : FilterId) (result : Except Failure Unit) :
    Keeping R (match result with
      | .error failure => putBack ref handle old failure
      | .ok () => return some old : Effect σ (Option FilterId)) := by
  cases result with
  | error failure => exact keeping_putBack overlooks _ _ _
  | ok => exact keeping_pure _

variable (runs : ∀ code how, Keeping R (perform (.run code how)))
include runs

omit overlooks in
theorem keeping_attemptHook (id : FilterId) (hook : Hook) (name : String) (handle : Handle) :
    Keeping R (attempt (runHook perform id hook name handle)) :=
  (keeping_runHook (fun _ => runs _ _) id).attempt

theorem keeping_admitEntry (position : Position) (name : String) (filter : FilterId) :
    Keeping R (admitEntry perform ref position name filter) :=
  (keeping_chain ref).bind fun _ => (keeping_ofExcept _).bind fun _ =>
    (keeping_allocateEntry overlooks _ _).bind fun handle =>
    (keeping_attemptHook runs _ _ _ _).bind fun result => keeping_decision overlooks _ _ handle result

theorem keeping_confirmEntry (name : String) (filter : FilterId) (handle : Handle) :
    Keeping R (confirmEntry perform ref name filter handle) :=
  (keeping_attemptHook runs _ _ _ _).bind fun result => keeping_rollback overlooks name handle result

theorem keeping_add (position : Position) (name : String) (filter? : Option FilterId) :
    Keeping R (add perform ref position name filter?) :=
  (keeping_needFilter _ _).bind fun _ => (keeping_admitEntry overlooks runs _ _ _).bind fun _ =>
    keeping_store.bind fun _ => (keeping_logChain _ _ _).bind fun _ =>
      keeping_confirmEntry overlooks runs _ _ _

/-- An entry leaves if it is still there. -/
theorem keeping_leaving (entry : Entry) (filter : FilterId) (result : Except Failure Unit) :
    Keeping R (do
      match result with
      | .error failure => vetoed (.vetoedRemoval entry.name) failure
      | .ok () => pure ()
      if (← chain ref).isCurrent entry.handle then
        dropEntry ref entry.handle entry.name
        logChain ref .debug ("removed " ++ entry.name)
        runHook perform filter .postRemove entry.name entry.handle
      return some filter : Effect σ (Option FilterId)) := by
  have leave : Keeping R (do
      if (← chain ref).isCurrent entry.handle then
        dropEntry ref entry.handle entry.name
        logChain ref .debug ("removed " ++ entry.name)
        runHook perform filter .postRemove entry.name entry.handle
      return some filter : Effect σ (Option FilterId)) := by
    refine (keeping_chain ref).bind fun _ => ?_
    dsimp only
    split
    · exact (keeping_edit overlooks _ _).bind fun _ => (keeping_logChain _ _ _).bind fun _ =>
        (keeping_runHook (fun _ => runs _ _) _).bind fun _ => keeping_pure _
    · exact keeping_pure _
  cases result with
  | error failure => exact (keeping_vetoed _ _).bind fun _ => leave
  | ok => exact leave

theorem keeping_exchange (name : String) (filter : FilterId) (handle : Handle) :
    Keeping R (exchange perform ref name filter handle) := by
  refine (keeping_chain ref).bind fun _ => ?_
  have swap (old : FilterId) : Keeping R (do
      modifyChain ref fun c => c.setFilter handle.entry filter
      let s ← store
      logChain ref .debug
        ("replaced " ++ name ++ " (" ++ s.label old ++ " -> " ++ s.label filter ++ ")")
      match ← attempt (runHook perform filter .postAdd name handle) with
      | .error failure => putBack ref handle old failure
      | .ok () => return some old) := by
    exact (keeping_modifyChain overlooks _).bind fun _ => keeping_store.bind fun _ =>
      (keeping_logChain _ _ _).bind fun _ => (keeping_attemptHook runs _ _ _ _).bind fun result =>
        keeping_settlement overlooks handle old result
  dsimp only
  split
  · refine (keeping_fail _).bind fun _ => ?_
    split
    · exact keeping_pure _
    · exact swap _
  · split
    · exact keeping_pure _
    · exact swap _

theorem keeping_replacement (name : String) (filter : FilterId) (handle : Handle)
    (result : Except Failure Unit) : Keeping R (do
      match result with
      | .error failure => vetoed (.vetoedAddition name) failure
      | .ok () => pure ()
      exchange perform ref name filter handle : Effect σ (Option FilterId)) := by
  cases result with
  | error failure => exact (keeping_vetoed _ _).bind fun _ => keeping_exchange overlooks runs _ _ _
  | ok => exact keeping_exchange overlooks runs _ _ _

theorem keeping_replace (name : String) (filter? : Option FilterId) :
    Keeping R (replace perform ref name filter?) :=
  (keeping_needFilter _ _).bind fun _ => (keeping_chain ref).bind fun _ =>
    (keeping_ofExcept _).bind fun handle => (keeping_attemptHook runs _ _ _ _).bind fun asked =>
      keeping_replacement overlooks runs name _ handle asked

theorem keeping_addAll (entries : List (String × FilterId)) :
    Keeping R (addAll perform ref entries) := by
  induction entries with
  | nil => exact keeping_pure ()
  | cons entry rest ih => exact (keeping_add overlooks runs _ _ _).bind fun _ => ih

end Overlooked

/-- A contract that does not look at the chains that may be edited is kept by all edits. -/
theorem overlooked_edits {R : Contract σ} [Permissive R]
    (overlooks : ∀ ref, R.terms.edits ref → Overlooks R ref) {perform : Perform σ}
    (performs : Performs R perform) : Edits R perform where
  calls {c w} editing fits _ := by
    have runs := keeping_run performs
    have finish (reply : Reply) : Keeping R (pure reply : Effect σ Reply) := keeping_pure reply
    cases c with
    | add ref position name filter =>
      exact keeping_unit (keeping_add (overlooks ref fits.1) runs position name filter) w
    | remove ref name =>
      exact (remove_keeps (removeEntry_keeps runs (overlooks ref fits).removed) name).bind (fun _ => finish _) w
    | removeFilter ref filter =>
      exact (removeFilter_keeps (removeEntry_keeps runs (overlooks ref fits).removed) filter).bind (fun _ => finish _) w
    | replace ref name filter =>
      exact (keeping_replace (overlooks ref fits.1) runs name filter).bind (fun _ => finish _) w
    | clear ref =>
      exact keeping_unit (clear_keeps (removeEntry_keeps runs (overlooks ref fits).removed) fun w => performs _ w fits) w
    | addAll ref entries => exact keeping_unit (keeping_addAll (overlooks ref fits.1) runs entries) w
    | _ => cases editing
  clears may := clear_keeps (removeEntry_keeps (keeping_run performs) (overlooks _ may).removed) fun w =>
    performs _ w may

/-- To leave the chain of this session as it is. -/
def aloof (ref : SessionRef) : Contract σ where
  terms := .aloof ref
  ended w w' := w'.store.chain ref = w.store.chain ref ∧
    w.store.sessions.size ≤ w'.store.sessions.size
  stopped _ _ := True

instance (ref : SessionRef) : Permissive (aloof ref : Contract σ) where
  refl _ := ⟨rfl,Nat.le_refl _⟩
  trans first second := ⟨second.1.trans first.1,Nat.le_trans first.2 second.2⟩
  quiet quiet := ⟨quiet.chain_eq ref,quiet.sessions_le⟩
  stop _ := trivial
  after _ _ := trivial
  awaited _ _ _ _ := ⟨rfl,Nat.le_refl _⟩

theorem aloof_overlooks {ref r : SessionRef} (other : r ≠ ref) :
    Overlooks (aloof ref : Contract σ) r where
  changes w change :=
    ⟨chain_mapChain_of_ne w (Ne.symm other) change,Nat.le_of_eq (sessions_mapSession w r _).symm⟩
  records _ _ := ⟨rfl,Nat.le_refl _⟩

theorem aloof_performs {ref : SessionRef} {stops : Watch σ} (abides : stops.Abides (.aloof ref))
    (fuel : Nat) : Performs (aloof ref) (performUntil stops fuel) :=
  performUntil_keeps abides (fun _ performs => overlooked_edits (fun _ => aloof_overlooks) performs) fuel

end Effect
end SessionPipeline
