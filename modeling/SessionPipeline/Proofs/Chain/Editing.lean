import SessionPipeline.Proofs.Effect.Operations

/-! Editing a chain, with the hooks in between, is what may become of a world. -/
namespace SessionPipeline.Effect

open World

variable {σ : Type} {terms : Terms}

theorem allocateEntry_apply (ref : SessionRef) (name : String) (filter : FilterId) (w : World σ) :
    allocateEntry ref name filter w =
      .ok ((w.store.chain ref).reserved ref name filter) (w.reserve ref name filter) := rfl

theorem dropEntry_apply (ref : SessionRef) (handle : Handle) (name : String) (w : World σ) :
    dropEntry ref handle name w = .ok () (w.dropEntry ref handle name) := rfl

theorem needFilter_apply (name : String) (filter : FilterId) (w : World σ) :
    needFilter name (some filter) w = .ok filter w := rfl

theorem getHandle_eq_ok {c : Chain} {name : String} {id : EntryId} (ref : SessionRef)
    (found : c.find? name = some id) : c.getHandle ref name = .ok (c.handle ref id) := by
  rw [Chain.getHandle,Chain.getEntry,found]
  rfl

theorem getHandle_eq_error {c : Chain} {name : String} (ref : SessionRef)
    (missing : c.find? name = none) : c.getHandle ref name = .error (.nameNotFound name) := by
  rw [Chain.getHandle,Chain.getEntry,missing]
  rfl

/-- An addition that is given a filter. -/
theorem add_some (perform : Perform σ) (ref : SessionRef) (position : Position) (name : String)
    (filter : FilterId) : add perform ref position name (some filter) = (do
      let handle ← admitEntry perform ref position name filter
      logChain ref .debug ("added " ++ name ++ " (" ++ (← store).label filter ++ ")")
      confirmEntry perform ref name filter handle) := rfl

theorem linked_of_current {c : Chain} {handle : Handle} (current : c.isCurrent handle = true) :
    (c.slot handle.entry).linked = true := by
  simp only [Chain.isCurrent,Bool.and_eq_true] at current
  exact current.2

/-- Puts another filter into the slot of an entry, `undo` telling what is done if its hook fails. -/
def exchangeWith (undo : SessionRef → Handle → FilterId → Failure → Effect σ (Option FilterId))
    (perform : Perform σ) (session : SessionRef) (name : String) (filter : FilterId)
    (handle : Handle) : Effect σ (Option FilterId) := do
  let c ← chain session
  if !c.isCurrent handle then fail (.nameNotFound name)
  match (c.slot handle.entry).filter with
  | none => return none
  | some old => do
    modifyChain session fun c => c.setFilter handle.entry filter
    let s ← store
    logChain session .debug
      ("replaced " ++ name ++ " (" ++ s.label old ++ " -> " ++ s.label filter ++ ")")
    match ← attempt (runHook perform filter .postAdd name handle) with
    | .error failure => undo session handle old failure
    | .ok () => return some old

def replaceWith (undo : SessionRef → Handle → FilterId → Failure → Effect σ (Option FilterId))
    (perform : Perform σ) (session : SessionRef) (name : String) (filter? : Option FilterId) :
    Effect σ (Option FilterId) := do
  let filter ← needFilter name filter?
  let handle ← ofExcept ((← chain session).getHandle session name)
  match ← attempt (runHook perform filter .preAdd name handle) with
  | .error failure => vetoed (.vetoedAddition name) failure
  | .ok () => pure ()
  exchangeWith undo perform session name filter handle

theorem replaceWith_putBack (perform : Perform σ) : replaceWith putBack perform = replace perform := rfl

section Removing

variable {R : Contract σ} [Lawful R] {perform : Perform σ} {ref : SessionRef}
  (runs : ∀ code how, Keeping R (perform (.run code how)))
  (removed : ∀ {w w' : World σ} {id : EntryId}, (w.store.chain ref).Picks id → R.ended w w' →
    (w'.store.chain ref).isCurrent ((w.store.chain ref).handle ref id) = true →
    R.ended w (w'.dropEntry ref ((w.store.chain ref).handle ref id) ((w.store.chain ref).slot id).name))
include runs removed

/-- An entry leaves behind the hook that it is asked in. -/
theorem removeEntry_keeps {w : World σ} {id : EntryId} (picked : (w.store.chain ref).Picks id) :
    Meets R w (removeEntry perform ref id) w := by
  unfold removeEntry
  rw [meets_bind_of_ok (chain_apply ref w)]
  dsimp only
  split
  · exact Lawful.refl w
  · rename_i filter _
    have asks : Keeping R (runHook perform filter .preRemove ((w.store.chain ref).entry ref id).name
        ((w.store.chain ref).entry ref id).handle) := keeping_runHook (fun _ => runs _ _) filter
    refine (asks w).bind_attempt (fun _ midway => midway) fun result w₁ hook => ?_
    cases result with
    | error failure => exact (keeping_vetoed _ failure).from hook
    | ok =>
      dsimp only
      rw [meets_bind_of_ok (chain_apply ref w₁)]
      split
      · rename_i current
        rw [meets_bind_of_ok (dropEntry_apply ref _ _ w₁)]
        refine Keeping.from ?_ (removed picked hook current)
        exact (keeping_logChain _ _ _).bind fun _ => (keeping_runHook (fun _ => runs _ _) _).bind
          fun _ => keeping_pure _
      · exact hook

end Removing

section Leaving

variable {R : Contract σ} [Discreet R] {perform : Perform σ} {ref : SessionRef}
  (leaves : ∀ {w : World σ} {id : EntryId}, (w.store.chain ref).Picks id →
    Meets R w (removeEntry perform ref id) w)
include leaves

theorem remove_keeps (name : String) : Keeping R (remove perform ref name) := by
  intro w
  unfold remove
  rw [meets_bind_of_ok (chain_apply ref w)]
  split
  · rename_i id found
    exact leaves (.named found)
  · exact Discreet.refl w

theorem removeFilter_keeps (filter : Option FilterId) :
    Keeping R (removeFilter perform ref filter) := by
  intro w
  unfold removeFilter
  rw [meets_bind_of_ok (chain_apply ref w)]
  split
  · rename_i id found
    exact (leaves (.holding found)).bind fun _ _ before => before
  · exact keeping_store.bind (fun _ => keeping_fail _) w

theorem clear_keeps (goesOn : Keeping R (perform (.clear ref))) :
    Keeping R (clear perform ref) := by
  intro w
  unfold clear
  rw [meets_bind_of_ok (chain_apply ref w)]
  split
  · rename_i id found
    split
    · exact Discreet.refl w
    · rename_i entry
      refine (leaves (.first found (by simpa using entry))).bind fun _ _ before => ?_
      exact (goesOn.bind fun _ => keeping_pure ()).from before
  · exact Discreet.refl w

end Leaving

theorem evolving_putBack (ref : SessionRef) (handle : Handle) (old : FilterId) (failure : Failure) :
    Evolving terms (putBack ref handle old failure : Effect σ (Option FilterId)) := by
  intro w
  unfold putBack
  rw [meets_bind_of_ok (chain_apply ref w)]
  dsimp only
  split
  · rename_i current
    rw [meets_bind_of_ok (modifyChain_apply ref _ w)]
    exact .step (.replaced w ref _ old (linked_of_current current))
  · exact .refl w

section Performing

variable {undo : SessionRef → Handle → FilterId → Failure → Effect σ (Option FilterId)}
  {perform : Perform σ} (runs : ∀ code how, Evolving terms (perform (.run code how)))
include runs

/-- A new entry is linked behind a hook, or its slot is freed. -/
theorem admitEntry_evolves {w : World σ} {ref : SessionRef} (present : ref < w.store.sessions.size)
    (position : Position) (name : String) (filter : FilterId) :
    ends (admitEntry perform ref position name filter)
      (fun handle w' => handle = (w.store.chain ref).reserved ref name filter ∧
        ∃ w₁, (w.reserve ref name filter).Evolves terms w₁ ∧
          (w₁.store.chain ref).checkAddition name position = .ok () ∧
          w' = w₁.linkEntry ref handle name position)
      (fun _ => w.Evolves terms) (w.Midway terms) w := by
  unfold admitEntry
  rw [ends_bind_of_ok (chain_apply ref w),ends_bind,ends_ofExcept]
  cases (w.store.chain ref).checkAddition name position with
  | error failure => exact .refl w
  | ok =>
    dsimp only
    rw [ends_bind_of_ok (allocateEntry_apply ref name filter w),ends_bind,ends_attempt]
    refine ends_mono (keeping_runHook (fun _ => runs _ _) filter _) ?_ ?_ ?_
    · intro _ w₁ hook
      dsimp only
      -- The hook may have edited the chain, so the position is looked up again.
      rw [ends_bind_of_ok (chain_apply ref w₁)]
      cases admissible : (w₁.store.chain ref).checkAddition name position with
      | error failure => exact .refused present hook
      | ok => exact ⟨rfl,w₁,hook,admissible,rfl⟩
    · intro failure w₁ hook
      exact .refused present hook
    · intro w₁ hook
      exact .adding (.refl w) present hook

theorem confirmEntry_evolves {w w₁ w₂ : World σ} {ref : SessionRef} {position : Position}
    {name : String} {filter : FilterId} (present : ref < w.store.sessions.size)
    (hook : (w.reserve ref name filter).Evolves terms w₁)
    (admissible : (w₁.store.chain ref).checkAddition name position = .ok ())
    (after : (w₁.linkEntry ref ((w.store.chain ref).reserved ref name filter) name position).Evolves
      terms w₂) :
    Meets (evolution terms) w
      (confirmEntry perform ref name filter ((w.store.chain ref).reserved ref name filter)) w₂ := by
  have linked := (Evolves.added present hook admissible).trans after
  unfold confirmEntry
  refine (keeping_runHook (fun _ => runs _ _) filter w₂).bind_attempt
    (fun _ midway => midway.after linked) fun result w₃ told => ?_
  cases result with
  | ok => exact linked.trans told
  | error failure =>
    dsimp only
    rw [meets_bind_of_ok (chain_apply ref w₃)]
    split
    · rename_i current
      rw [meets_bind_of_ok (dropEntry_apply ref _ name w₃)]
      exact (keeping_logFail ref .debug _ failure).from (.rolledBack present hook admissible (after.trans told) current)
    · exact (keeping_logFail ref .debug _ failure).from (linked.trans told)

theorem add_evolves {w : World σ} {ref : SessionRef} (present : ref < w.store.sessions.size)
    (position : Position) (name : String) (filter? : Option FilterId) :
    Meets (evolution terms) w (add perform ref position name filter?) w := by
  cases filter? with
  | none => exact .refl w
  | some filter =>
    rw [add_some,meets_bind]
    refine ends_mono (admitEntry_evolves runs present position name filter) ?_
      (fun _ _ before => before) fun _ midway => midway
    rintro _ w' ⟨rfl,w₁,hook,admissible,rfl⟩
    have linked : w.Evolves terms _ := .added present hook admissible
    rw [meets_bind_of_ok (store_apply _),meets_bind]
    refine ends_mono (keeping_logChain (R := evolution terms) ref _ _ _) ?_
      (fun _ _ told => linked.trans told) fun _ midway => midway.after linked
    intro _ w₂ told
    exact confirmEntry_evolves runs present hook admissible told

/-- An entry gets another filter, which makes way again if its hook fails, in whatever way. -/
theorem evolving_exchangeWith (undoes : ∀ session handle old failure,
      Evolving terms (undo session handle old failure))
    (ref : SessionRef) (name : String) (filter : FilterId) (handle : Handle) :
    Evolving terms (exchangeWith undo perform ref name filter handle) := by
  intro w
  unfold exchangeWith
  rw [meets_bind_of_ok (chain_apply ref w)]
  dsimp only
  split
  · exact .refl w
  · rename_i current
    split
    · exact .refl w
    · rename_i old _
      rw [meets_bind_of_ok (modifyChain_apply ref _ w)]
      have linked := linked_of_current (by simpa using current)
      refine Keeping.from ?_ (.step (.replaced w ref _ filter linked))
      refine keeping_store.bind fun s => (keeping_logChain _ _ _).bind fun _ =>
        (keeping_runHook (fun _ => runs _ _) _).attempt.bind fun told => ?_
      split
      · exact undoes _ _ _ _
      · exact keeping_pure _

theorem evolving_replaceWith (undoes : ∀ session handle old failure,
      Evolving terms (undo session handle old failure))
    (ref : SessionRef) (name : String) (filter? : Option FilterId) :
    Evolving terms (replaceWith undo perform ref name filter?) := by
  refine (keeping_needFilter _ _).bind fun filter => (keeping_chain ref).bind fun c =>
    (keeping_ofExcept _).bind fun handle => (keeping_runHook (fun _ => runs _ _) _).attempt.bind fun asked => ?_
  split
  · exact (keeping_vetoed _ _).bind fun _ => evolving_exchangeWith runs undoes _ _ _ _
  · exact evolving_exchangeWith runs undoes _ _ _ _

theorem addAll_evolves {w : World σ} {ref : SessionRef} (present : ref < w.store.sessions.size)
    (entries : List (String × FilterId)) :
    Meets (evolution terms) w (addAll perform ref entries) w := by
  induction entries generalizing w with
  | nil => exact .refl w
  | cons entry rest ih =>
    unfold addAll
    refine (add_evolves runs present .last entry.1 (some entry.2)).bind fun _ w₁ before => ?_
    exact (ih (Nat.lt_of_lt_of_le present before.sessions_le)).from before

end Performing

end SessionPipeline.Effect
