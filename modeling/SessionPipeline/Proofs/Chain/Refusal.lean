import SessionPipeline.Proofs.Chain.Editing
import SessionPipeline.Proofs.Chain.Worn
import SessionPipeline.Proofs.Effect.Aloof

/-! How an addition or a replacement fails, and what it leaves behind. As long as no hook edits the
chain it tells the same as before; all that has changed is how often one free slot has been freed. -/
namespace SessionPipeline

/-- A call that puts a filter into the chain of this session, as a new entry or in place of another. -/
def Call.Enters (ref : SessionRef) : Call → Prop
  | .add r .. | .replace r .. => r = ref
  | _ => False

/-- What a failure of a hook that is asked about an addition comes out as. -/
def Failure.vetoes (failure : Failure) (name : String) : Failure :=
  if failure.standard then .vetoedAddition name failure.message else failure

namespace Effect

open World

variable {σ : Type}

theorem attempt_bind_ok {α β : Type} {body : Effect σ α} {w w' : World σ} {a : α}
    (returned : body w = .ok a w') (next : Except Failure α → Effect σ β) :
    (attempt body >>= next) w = next (.ok a) w' := by
  rw [bind_apply,attempt,returned]

theorem attempt_bind_failed {α β : Type} {body : Effect σ α} {w w' : World σ} {failure : Failure}
    (failed : body w = .error (.failed failure) w') (next : Except Failure α → Effect σ β) :
    (attempt body >>= next) w = next (.error failure) w' := by
  rw [bind_apply,attempt,failed]

theorem attempt_bind_stopped {α β : Type} {body : Effect σ α} {w w' : World σ}
    (stopped : body w = .error .outOfFuel w') (next : Except Failure α → Effect σ β) :
    (attempt body >>= next) w = .error .outOfFuel w' := by
  rw [bind_apply,attempt,stopped]

/-- How such a call fails that is made in this world, and the world that it leaves. -/
inductive Refuses (perform : Perform σ) (ref : SessionRef) (w : World σ) : Call → Failure → World σ → Prop
  | null (position : Position) (name : String) : Refuses perform ref w (.add ref position name none)
      (.invalidArgument ("filter must not be null: " ++ name)) w
  | taken (position : Position) {name : String} (filter : FilterId)
      (taken : (w.store.chain ref).contains name = true) :
      Refuses perform ref w (.add ref position name (some filter)) (.duplicateName name) w
  | baseless {position : Position} {name base : String} (filter : FilterId)
      (free : (w.store.chain ref).contains name = false)
      (relative : position = .before base ∨ position = .after base)
      (missing : (w.store.chain ref).contains base = false) :
      Refuses perform ref w (.add ref position name (some filter)) (.nameNotFound base) w
  | vetoed {position : Position} {name : String} {filter : FilterId} {failure : Failure} {w₁ : World σ}
      (admissible : (w.store.chain ref).checkAddition name position = .ok ())
      (asked : runHook perform filter .preAdd name ((w.store.chain ref).reserved ref name filter)
        (w.reserve ref name filter) = .error (.failed failure) w₁) :
      Refuses perform ref w (.add ref position name (some filter)) (failure.vetoes name)
        (w₁.discardEntry ref ((w.store.chain ref).reserved ref name filter))
  | rolledBack {position : Position} {name added left : String} {filter : FilterId} {failure : Failure}
      {w₁ w₂ : World σ} (admissible : (w.store.chain ref).checkAddition name position = .ok ())
      (asked : runHook perform filter .preAdd name ((w.store.chain ref).reserved ref name filter)
        (w.reserve ref name filter) = .ok () w₁)
      (told : runHook perform filter .postAdd name ((w.store.chain ref).reserved ref name filter)
        ((w₁.linkEntry ref ((w.store.chain ref).reserved ref name filter) name position).logged
          chainLogger .debug (Bytes.ofString added)) = .error (.failed failure) w₂) :
      Refuses perform ref w (.add ref position name (some filter)) failure
        ((w₂.dropEntry ref ((w.store.chain ref).reserved ref name filter) name).logged
          chainLogger .debug (Bytes.ofString left))
  | nothing (name : String) : Refuses perform ref w (.replace ref name none)
      (.invalidArgument ("filter must not be null: " ++ name)) w
  | unknown {name : String} (filter : FilterId) (missing : (w.store.chain ref).contains name = false) :
      Refuses perform ref w (.replace ref name (some filter)) (.nameNotFound name) w
  | kept {name : String} {filter : FilterId} {id : EntryId} {failure : Failure} {w₁ : World σ}
      (found : (w.store.chain ref).find? name = some id)
      (asked : runHook perform filter .preAdd name ((w.store.chain ref).handle ref id) w =
        .error (.failed failure) w₁) :
      Refuses perform ref w (.replace ref name (some filter)) (failure.vetoes name) w₁
  | putBack {name replaced : String} {filter old : FilterId} {id : EntryId} {failure : Failure}
      {w₁ w₂ : World σ} (found : (w.store.chain ref).find? name = some id)
      (holding : ((w.store.chain ref).slot id).filter = some old)
      (asked : runHook perform filter .preAdd name ((w.store.chain ref).handle ref id) w = .ok () w₁)
      (told : runHook perform filter .postAdd name ((w.store.chain ref).handle ref id)
        ((w₁.mapChain ref (·.setFilter id filter)).logged chainLogger .debug
          (Bytes.ofString replaced)) = .error (.failed failure) w₂) :
      Refuses perform ref w (.replace ref name (some filter)) failure
        (w₂.mapChain ref (·.setFilter id old))

section Failing

variable {perform : Perform σ} {ref : SessionRef} {w w' : World σ} {c : Chain}
  {ids flight : List EntryId} {position : Position} {name : String} {filter : FilterId}
  {failure : Failure}

theorem checkAddition_error (refused : c.checkAddition name position = .error failure) :
    (c.contains name = true ∧ failure = .duplicateName name) ∨ (c.contains name = false ∧
      ∃ base, (position = .before base ∨ position = .after base) ∧ c.contains base = false ∧
        failure = .nameNotFound base) := by
  unfold Chain.checkAddition at refused
  split at refused
  · rename_i taken
    exact .inl ⟨taken,(Except.error.inj refused).symm⟩
  · rename_i free
    refine .inr ⟨Bool.eq_false_iff.mpr free,?_⟩
    unfold Chain.checkBase at refused
    split at refused
    · rename_i base
      split at refused
      · cases refused
      · rename_i missing
        exact ⟨base,.inl rfl,Bool.eq_false_iff.mpr missing,(Except.error.inj refused).symm⟩
    · rename_i base
      split at refused
      · cases refused
      · rename_i missing
        exact ⟨base,.inr rfl,Bool.eq_false_iff.mpr missing,(Except.error.inj refused).symm⟩
    · cases refused

theorem allocate_checkAddition (c : Chain) (n name : String) (filter : FilterId) (position : Position) :
    (c.allocate n filter).2.checkAddition name position = c.checkAddition name position := by
  have index : (c.allocate n filter).2.index = c.index := by
    unfold Chain.allocate
    split <;> rfl
  exact Chain.checkAddition_congr index name position

/-- A new entry is current once it is linked. -/
theorem linked_isCurrent (holds : c.Holds ids flight)
    (admissible : c.checkAddition name position = .ok ()) :
    ((c.allocate name filter).2.insert (c.allocate name filter).1 name position).isCurrent
      (c.reserved ref name filter) = true := by
  rw [Chain.isCurrent_iff]
  have allocated := holds.allocate name filter
  rw [← allocate_checkAddition c name name filter position] at admissible
  exact (allocated.insert_mark admissible _).trans (if_pos rfl)

/-- Linked or not, a new entry that leaves again has used a free slot once. -/
theorem linked_drop (holds : c.Holds ids flight)
    (admissible : c.checkAddition name position = .ok ()) :
    ((c.allocate name filter).2.insert (c.allocate name filter).1 name position).drop
        (c.allocate name filter).1 name =
      (c.allocate name filter).2.release (c.allocate name filter).1 := by
  have slot := (holds.allocate_slot name filter).2.2
  rw [← allocate_checkAddition c name name filter position] at admissible
  exact (holds.allocate name filter).insert_drop admissible (congrArg Slot.name slot)
    (congrArg (·.filter.isSome) slot)

/-- An addition that is admissible asks the filter while the new slot is taken. -/
theorem admitEntry_asks (perform : Perform σ) (filter : FilterId)
    (admissible : (w.store.chain ref).checkAddition name position = .ok ()) :
    admitEntry perform ref position name filter w = (do
      match ← attempt (runHook perform filter .preAdd name ((w.store.chain ref).reserved ref name filter)) with
      | .error failure => do
        discardEntry ref ((w.store.chain ref).reserved ref name filter)
        vetoed (.vetoedAddition name) failure
      | .ok () =>
        match (← chain ref).checkAddition name position with
        | .error failure => do
          discardEntry ref ((w.store.chain ref).reserved ref name filter)
          fail failure
        | .ok () => do
          linkEntry ref ((w.store.chain ref).reserved ref name filter) name position
          return (w.store.chain ref).reserved ref name filter) (w.reserve ref name filter) := by
  unfold admitEntry
  rw [bind_of_ok (chain_apply ref w),admissible]
  rfl

theorem admitEntry_refused (perform : Perform σ)
    (refused : (w.store.chain ref).checkAddition name position = .error failure) :
    admitEntry perform ref position name filter w = .error (.failed failure) w := by
  unfold admitEntry
  rw [bind_of_ok (chain_apply ref w),refused]
  rfl

/-- Only a filter that objects makes an entry leave again that has been linked. -/
theorem confirmEntry_failed {handle : Handle} (current : ∀ w₁,
      runHook perform filter .postAdd name handle w = .error (.failed failure) w₁ →
        (w₁.store.chain ref).isCurrent handle = true)
    (failed : confirmEntry perform ref name filter handle w = .error (.failed failure) w') :
    ∃ w₁ left, runHook perform filter .postAdd name handle w = .error (.failed failure) w₁ ∧
      w' = (w₁.dropEntry ref handle name).logged chainLogger .debug (Bytes.ofString left) := by
  unfold confirmEntry at failed
  cases told : runHook perform filter .postAdd name handle w with
  | ok _ w₁ =>
    rw [attempt_bind_ok told] at failed
    cases failed
  | error stop w₁ =>
    cases stop with
    | outOfFuel =>
      rw [attempt_bind_stopped told] at failed
      cases failed
    | failed after =>
      rw [attempt_bind_failed told] at failed
      dsimp only at failed
      rw [bind_of_ok (chain_apply ref w₁)] at failed
      split at failed
      · cases failed
        exact ⟨w₁,_,rfl,rfl⟩
      · rename_i gone
        cases failed
        exact absurd (current w₁ told) gone

theorem putBack_current {handle : Handle} {old : FilterId}
    (current : (w.store.chain ref).isCurrent handle = true) :
    Effect.putBack ref handle old failure w =
      .error (.failed failure) (w.mapChain ref (·.setFilter handle.entry old)) := by
  unfold Effect.putBack
  rw [bind_of_ok (chain_apply ref w),if_pos current]
  rfl

section Aloof

variable (runs : ∀ code how, Keeping (aloof ref) (perform (.run code how)))
include runs

/-- A hook that does not edit the chain leaves it as it is, however it ends. -/
theorem hook_aloof (filter : FilterId) (hook : Hook) (name : String) (handle : Handle) :
    Keeping (aloof ref) (runHook perform filter hook name handle) :=
  keeping_runHook (fun _ => runs _ _) filter

theorem hook_ok {hook : Hook} {handle : Handle}
    (returned : runHook perform filter hook name handle w = .ok () w') :
    w'.store.chain ref = w.store.chain ref ∧ w.store.sessions.size ≤ w'.store.sessions.size :=
  (meets_of_ok returned).mp (hook_aloof runs filter hook name handle w)

theorem hook_failed {hook : Hook} {handle : Handle}
    (failed : runHook perform filter hook name handle w = .error (.failed failure) w') :
    w'.store.chain ref = w.store.chain ref ∧ w.store.sessions.size ≤ w'.store.sessions.size := by
  have keeps := hook_aloof runs filter hook name handle w
  unfold Meets ends at keeps
  rwa [failed] at keeps

/-- While no hook edits the chain a new entry is either refused or linked where it was to be. -/
theorem admitEntry_cases (filter : FilterId) (present : ref < w.store.sessions.size)
    (admissible : (w.store.chain ref).checkAddition name position = .ok ()) :
    (∃ w₁, admitEntry perform ref position name filter w = .error .outOfFuel w₁) ∨
    (∃ failure w₁, runHook perform filter .preAdd name ((w.store.chain ref).reserved ref name filter)
        (w.reserve ref name filter) = .error (.failed failure) w₁ ∧
      admitEntry perform ref position name filter w = .error (.failed (failure.vetoes name))
        (w₁.discardEntry ref ((w.store.chain ref).reserved ref name filter))) ∨
    ∃ w₁, runHook perform filter .preAdd name ((w.store.chain ref).reserved ref name filter)
        (w.reserve ref name filter) = .ok () w₁ ∧
      admitEntry perform ref position name filter w = .ok ((w.store.chain ref).reserved ref name filter)
        (w₁.linkEntry ref ((w.store.chain ref).reserved ref name filter) name position) := by
  have asks := admitEntry_asks perform filter admissible
  cases asked : runHook perform filter .preAdd name ((w.store.chain ref).reserved ref name filter)
      (w.reserve ref name filter) with
  | error stop w₁ =>
    cases stop with
    | outOfFuel =>
      rw [attempt_bind_stopped asked] at asks
      exact .inl ⟨w₁,asks⟩
    | failed failure =>
      rw [attempt_bind_failed asked] at asks
      exact .inr (.inl ⟨failure,w₁,rfl,asks⟩)
  | ok _ w₁ =>
    have still : (w₁.store.chain ref).checkAddition name position = .ok () := by
      rw [(hook_ok runs asked).1,World.reserve,chain_mapChain present,allocate_checkAddition,admissible]
    rw [attempt_bind_ok asked] at asks
    dsimp only at asks
    rw [bind_of_ok (chain_apply ref w₁),still] at asks
    exact .inr (.inr ⟨w₁,rfl,asks⟩)

/-- The chain once the entry is linked. -/
theorem linked_chain (position : Position) (present : ref < w.store.sessions.size)
    (asked : runHook perform filter .preAdd name ((w.store.chain ref).reserved ref name filter)
      (w.reserve ref name filter) = .ok () w') :
    (w'.linkEntry ref ((w.store.chain ref).reserved ref name filter) name position).store.chain ref =
      ((w.store.chain ref).allocate name filter).2.insert ((w.store.chain ref).allocate name filter).1
        name position := by
  obtain ⟨same,grown⟩ := hook_ok runs asked
  have present' : ref < w'.store.sessions.size :=
    Nat.lt_of_lt_of_le present (by simpa [reserve,mapChain] using grown)
  rw [World.linkEntry,chain_edit present',same,World.reserve,chain_mapChain present]
  rfl

theorem add_refuses (holds : (w.store.chain ref).Holds ids flight)
    (present : ref < w.store.sessions.size) {filter? : Option FilterId}
    (failed : add perform ref position name filter? w = .error (.failed failure) w') :
    Refuses perform ref w (.add ref position name filter?) failure w' := by
  cases filter? with
  | none =>
    cases failed
    exact .null position name
  | some filter =>
    rw [add_some] at failed
    cases admissible : (w.store.chain ref).checkAddition name position with
    | error refused =>
      rw [bind_apply,admitEntry_refused perform admissible] at failed
      cases failed
      rcases checkAddition_error admissible with ⟨taken,rfl⟩ | ⟨free,base,relative,missing,rfl⟩
      · exact .taken position filter taken
      · exact .baseless filter free relative missing
    | ok =>
      rcases admitEntry_cases runs filter present admissible with
        ⟨w₁,stopped⟩ | ⟨vetoing,w₁,asked,ended⟩ | ⟨w₁,asked,linked⟩
      · rw [bind_apply,stopped] at failed
        cases failed
      · rw [bind_apply,ended] at failed
        cases failed
        exact .vetoed admissible asked
      · rw [bind_of_ok linked,bind_of_ok (store_apply _),bind_of_ok (logChain_apply ref _ _ _)] at failed
        have joined := linked_chain runs position present asked
        obtain ⟨w₂,left,told,rfl⟩ := confirmEntry_failed (fun w₂ told => by
          rw [(hook_failed runs told).1]
          exact (congrArg (Chain.isCurrent · _) joined).trans (linked_isCurrent holds admissible)) failed
        exact .rolledBack admissible asked told

/-- The filter of an entry that is there is exchanged before the new one is told, and put back. -/
theorem exchange_failed {handle : Handle} {old : FilterId} (present : ref < w.store.sessions.size)
    (current : (w.store.chain ref).isCurrent handle = true)
    (holding : ((w.store.chain ref).slot handle.entry).filter = some old)
    (failed : exchange perform ref name filter handle w = .error (.failed failure) w') :
    ∃ w₁ replaced, runHook perform filter .postAdd name handle
        ((w.mapChain ref (·.setFilter handle.entry filter)).logged chainLogger .debug
          (Bytes.ofString replaced)) = .error (.failed failure) w₁ ∧
      w' = w₁.mapChain ref (·.setFilter handle.entry old) := by
  have tells : ∃ replaced, exchange perform ref name filter handle w = (do
      match ← attempt (runHook perform filter .postAdd name handle) with
      | .error failure => Effect.putBack ref handle old failure
      | .ok () => return some old)
        ((w.mapChain ref (·.setFilter handle.entry filter)).logged chainLogger .debug
          (Bytes.ofString replaced)) := by
    unfold exchange
    rw [bind_of_ok (chain_apply ref w),current,holding]
    exact ⟨_,rfl⟩
  obtain ⟨replaced,tells⟩ := tells
  rw [tells] at failed
  cases told : runHook perform filter .postAdd name handle
      ((w.mapChain ref (·.setFilter handle.entry filter)).logged chainLogger .debug
        (Bytes.ofString replaced)) with
  | ok _ w₁ =>
    rw [attempt_bind_ok told] at failed
    cases failed
  | error stop w₁ =>
    cases stop with
    | outOfFuel =>
      rw [attempt_bind_stopped told] at failed
      cases failed
    | failed after =>
      have swapped : (w₁.store.chain ref).isCurrent handle = true := by
        have here : ((w.mapChain ref (·.setFilter handle.entry filter)).logged chainLogger .debug
            (Bytes.ofString replaced)).store.chain ref =
              (w.store.chain ref).setFilter handle.entry filter :=
          chain_mapChain present (·.setFilter handle.entry filter)
        rw [(hook_failed runs told).1,here,Chain.isCurrent_iff,Chain.setFilter_mark,
          ← Chain.isCurrent_iff,current]
      rw [attempt_bind_failed told] at failed
      dsimp only at failed
      rw [putBack_current swapped] at failed
      cases failed
      exact ⟨w₁,replaced,told,rfl⟩

theorem replace_refuses (holds : (w.store.chain ref).Holds ids flight)
    (present : ref < w.store.sessions.size) {filter? : Option FilterId}
    (failed : replace perform ref name filter? w = .error (.failed failure) w') :
    Refuses perform ref w (.replace ref name filter?) failure w' := by
  cases filter? with
  | none =>
    cases failed
    exact .nothing name
  | some filter =>
    have named : replace perform ref name (some filter) = (do
        let handle ← ofExcept ((← chain ref).getHandle ref name)
        match ← attempt (runHook perform filter .preAdd name handle) with
        | .error failure => vetoed (.vetoedAddition name) failure
        | .ok () => pure ()
        exchange perform ref name filter handle) := rfl
    rw [named,bind_of_ok (chain_apply ref w)] at failed
    cases found : (w.store.chain ref).find? name with
    | none =>
      rw [getHandle_eq_error ref found] at failed
      cases failed
      exact .unknown filter (by simp [Chain.contains,found])
    | some id =>
      have member := ((holds.find?_eq_some_iff name id).mp found).1
      have linked := (holds.flags id).mpr (by simp [member])
      have current : (w.store.chain ref).isCurrent ((w.store.chain ref).handle ref id) = true := by
        rw [Chain.isCurrent_iff,Chain.mark,Chain.handle,linked]
      obtain ⟨old,holding⟩ := Option.isSome_iff_exists.mp (holds.filters id member)
      rw [getHandle_eq_ok ref found,bind_of_ok (ofExcept_apply _ w)] at failed
      cases asked : runHook perform filter .preAdd name ((w.store.chain ref).handle ref id) w with
      | error stop w₁ =>
        cases stop with
        | outOfFuel =>
          rw [attempt_bind_stopped asked] at failed
          cases failed
        | failed vetoing =>
          rw [attempt_bind_failed asked] at failed
          cases failed
          exact .kept found asked
      | ok _ w₁ =>
        obtain ⟨same,grown⟩ := hook_ok runs asked
        have present' := Nat.lt_of_lt_of_le present grown
        rw [attempt_bind_ok asked] at failed
        change exchange perform ref name filter ((w.store.chain ref).handle ref id) w₁ = _ at failed
        rw [← congrArg (Chain.isCurrent · ((w.store.chain ref).handle ref id)) same] at current
        have holding' : ((w₁.store.chain ref).slot id).filter = some old := by rw [same,holding]
        obtain ⟨w₂,replaced,told,rfl⟩ := exchange_failed runs present' current holding' failed
        exact .putBack found holding asked told

/-- All that a refusal changes of the chain is how often slots have been freed that hold no entry. -/
theorem Refuses.worn {call : Call} (holds : (w.store.chain ref).Holds ids flight)
    (present : ref < w.store.sessions.size) (refuses : Refuses perform ref w call failure w') :
    ref < w'.store.sessions.size ∧ ∃ wear : EntryId → UInt32,
      (∀ x, ((w.store.chain ref).slot x).linked = true → wear x = 0) ∧
      (w.store.chain ref).Worn wear (w'.store.chain ref) := by
  have same : ∃ wear : EntryId → UInt32,
      (∀ x, ((w.store.chain ref).slot x).linked = true → wear x = 0) ∧
      (w.store.chain ref).Worn wear (w.store.chain ref) := ⟨fun _ => 0,fun _ _ => rfl,.refl _⟩
  have released (name : String) (filter : FilterId) : ∃ wear : EntryId → UInt32,
      (∀ x, ((w.store.chain ref).slot x).linked = true → wear x = 0) ∧
      (w.store.chain ref).Worn wear (((w.store.chain ref).allocate name filter).2.release
        ((w.store.chain ref).allocate name filter).1) := by
    refine ⟨_,fun x linked => if_neg ?_,holds.allocate_release name filter⟩
    rintro rfl
    rw [holds.unlinked (holds.allocate_slot name filter).1] at linked
    cases linked
  have reserved (name : String) (filter : FilterId) :
      (w.reserve ref name filter).store.chain ref = ((w.store.chain ref).allocate name filter).2 ∧
        ref < (w.reserve ref name filter).store.sessions.size :=
    ⟨chain_mapChain present _,by simpa [reserve,mapChain] using present⟩
  cases refuses with
  | null | taken | baseless | nothing | unknown => exact ⟨present,same⟩
  | @vetoed position name filter failure w₁ admissible asked =>
    obtain ⟨here,present⟩ := reserved name filter
    obtain ⟨kept,grown⟩ := hook_failed runs asked
    have present := Nat.lt_of_lt_of_le present grown
    refine ⟨by simpa [World.discardEntry,record,mapStore,mapChain] using present,?_⟩
    rw [World.discardEntry,chain_edit present,kept,here]
    exact released name filter
  | @rolledBack position name added left filter failure w₁ w₂ admissible asked told =>
    have joined := linked_chain runs position present asked
    obtain ⟨kept,grown⟩ := hook_failed runs told
    have present : ref < w₂.store.sessions.size := by
      refine Nat.lt_of_lt_of_le ?_ grown
      have before := Nat.lt_of_lt_of_le (reserved name filter).2 (hook_ok runs asked).2
      simpa [World.linkEntry,World.logged,record,mapStore,mapChain] using before
    refine ⟨by simpa [World.dropEntry,World.logged,record,mapStore,mapChain] using present,?_⟩
    have undone : ((w₂.dropEntry ref ((w.store.chain ref).reserved ref name filter) name).logged
        chainLogger .debug (Bytes.ofString left)).store.chain ref =
          ((w.store.chain ref).allocate name filter).2.release
            ((w.store.chain ref).allocate name filter).1 := by
      have before : w₂.store.chain ref = _ := kept.trans joined
      rw [← linked_drop holds admissible,← before]
      exact chain_mapChain present (·.drop ((w.store.chain ref).allocate name filter).1 name)
    rw [undone]
    exact released name filter
  | kept found asked =>
    obtain ⟨kept,grown⟩ := hook_failed runs asked
    rw [kept]
    exact ⟨Nat.lt_of_lt_of_le present grown,same⟩
  | @putBack name replaced filter old id failure w₁ w₂ found holding asked told =>
    obtain ⟨before,grown⟩ := hook_ok runs asked
    have present := Nat.lt_of_lt_of_le present grown
    have swapped : ((w₁.mapChain ref (·.setFilter id filter)).logged chainLogger .debug
        (Bytes.ofString replaced)).store.chain ref = (w.store.chain ref).setFilter id filter := by
      rw [← before]
      exact chain_mapChain present (·.setFilter id filter)
    obtain ⟨kept,grown⟩ := hook_failed runs told
    have present : ref < w₂.store.sessions.size := by
      refine Nat.lt_of_lt_of_le ?_ grown
      simpa [World.logged,mapStore,mapChain] using present
    refine ⟨by simpa [mapChain] using present,?_⟩
    rw [chain_mapChain present,kept,swapped,Chain.setFilter_back holding]
    exact same

end Aloof
end Failing
end Effect
end SessionPipeline
