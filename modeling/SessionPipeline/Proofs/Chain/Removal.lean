import SessionPipeline.Proofs.Chain.Passage
import SessionPipeline.Proofs.Chain.Refusal
import SessionPipeline.Proofs.Effect.Ending

/-! How a removal fails, and what it leaves behind. Up to the moment in which the entry is unlinked a
failure leaves the chain as it is; the hook that runs after that moment has no say any more. -/
namespace SessionPipeline

/-- What a failure of a hook that is asked about a removal comes out as. -/
def Failure.withholds (failure : Failure) (name : String) : Failure :=
  if failure.standard then .vetoedRemoval name failure.message else failure

/-- A call that removes an entry of the chain of this session. -/
def Call.Takes (ref : SessionRef) : Call → Prop
  | .remove r _ | .removeFilter r _ => r = ref
  | _ => False

/-- The entry that a call is to remove. -/
def Call.picks? (c : Chain) : Call → Option EntryId
  | .remove _ name => c.find? name
  | .removeFilter _ filter => c.holder? filter
  | _ => none

theorem Call.picks {c : Chain} {call : Call} {id : EntryId} (picked : call.picks? c = some id) :
    c.Picks id := by
  cases call with
  | remove ref name => exact .named picked
  | removeFilter ref filter => exact .holding picked
  | _ => cases picked

namespace Chain

variable {c c₁ c₂ : Chain} {ids flight before after : List EntryId} {id : EntryId} {ref : SessionRef}
  {gone more : List Entry}

/-- Of the handles of a session's entries those of these entries are detached, and no others. -/
def Detaches (ref : SessionRef) (gone : List Entry) (c c' : Chain) : Prop :=
  ∀ h, h.owner = ref → (c'.isCurrent h = true ↔ c.isCurrent h = true ∧ ∀ e ∈ gone, e.handle ≠ h)

theorem Detaches.refl (c : Chain) : c.Detaches ref [] c := fun _ _ => by simp

theorem Detaches.append (first : c.Detaches ref gone c₁) (second : c₁.Detaches ref more c₂) :
    c.Detaches ref (gone ++ more) c₂ := by
  intro h owned
  rw [second h owned,first h owned,and_assoc]
  simp only [List.mem_append,or_imp,forall_and]

/-- What a chain tells once an entry has left it. -/
structure Loses (ref : SessionRef) (e : Entry) (c c' : Chain) : Prop where
  entries : ∃ before after, c.getAll ref = before ++ e :: after ∧ c'.getAll ref = before ++ after
  lookups : ∀ name, c'.find? name = if name = e.name then none else c.find? name
  handles : c.Detaches ref [e] c'

theorem Holds.drop_at (holds : c.Holds (before ++ id :: after) flight) :
    (c.drop id (c.slot id).name).Holds (before ++ after) flight := by
  have member : id ∈ before ++ id :: after := by simp
  obtain ⟨before',after',split,holds'⟩ := holds.drop member
  have once := holds.ids_nodup
  simp only [List.nodup_append,List.nodup_cons,List.mem_cons] at once
  have fresh : id ∉ before := fun inside => once.2.2 id inside id (.inl rfl) rfl
  obtain ⟨rfl,_,rfl⟩ := (List.append_cons_inj_of_notMem fresh once.2.1.1).mp split
  exact holds'

theorem Holds.drop_apart (holds : c.Holds (before ++ id :: after) flight) {x : EntryId}
    (inside : x ∈ before ++ after) : x ≠ id ∧ (c.slot x).name ≠ (c.slot id).name := by
  have listed := List.perm_middle.map (fun x => (c.slot x).name) |>.nodup_iff.mp holds.names
  have differs : (c.slot x).name ≠ (c.slot id).name := fun same =>
    (List.nodup_cons.mp listed).1 (List.mem_map.mpr ⟨x,inside,same⟩)
  refine ⟨?_,differs⟩
  rintro rfl
  exact differs rfl

theorem Holds.drop_entry (holds : c.Holds (before ++ id :: after) flight) (ref : SessionRef)
    {x : EntryId} (other : x ≠ id) (name : String) :
    (c.drop id name).entry ref x = c.entry ref x := by
  obtain ⟨left,prev,next,right,_,_,path⟩ := path_around before after id
  rw [entry,entry,handle,handle,holds.drop_slot path name x,if_neg other]

theorem Holds.drop_getAll (holds : c.Holds (before ++ id :: after) flight) (ref : SessionRef) :
    (c.drop id (c.slot id).name).getAll ref = (before ++ after).map (c.entry ref) := by
  rw [holds.drop_at.getAll_eq ref]
  exact List.map_congr_left fun x inside => holds.drop_entry ref (holds.drop_apart inside).1 _

theorem Holds.drop_detaches (holds : c.Holds ids flight) (member : id ∈ ids) (ref : SessionRef) :
    c.Detaches ref [c.entry ref id] (c.drop id (c.slot id).name) := by
  rintro h rfl
  simp only [List.mem_singleton,forall_eq]
  rw [isCurrent_iff,isCurrent_iff,holds.drop_mark member]
  by_cases same : h.entry = id
  · rw [if_pos same]
    refine iff_of_false (by simp) ?_
    rintro ⟨marked,differs⟩
    have generation := (Prod.mk.inj marked).1
    subst same
    exact differs (congrArg (Handle.mk h.owner h.entry) generation)
  · rw [if_neg same]
    exact ⟨fun marked => ⟨marked,fun taken => same (congrArg Handle.entry taken).symm⟩,And.left⟩

theorem Holds.drop_loses (holds : c.Holds ids flight) (member : id ∈ ids) (ref : SessionRef) :
    c.Loses ref (c.entry ref id) (c.drop id (c.slot id).name) := by
  refine ⟨?entries,?lookups,holds.drop_detaches member ref⟩
  all_goals obtain ⟨before,after,rfl⟩ := List.append_of_mem member
  case entries =>
    refine ⟨before.map (c.entry ref),after.map (c.entry ref),?_,?_⟩
    · rw [holds.getAll_eq,List.map_append,List.map_cons]
    · rw [holds.drop_getAll ref,List.map_append]
  case lookups =>
    intro name
    have named {x : EntryId} (inside : x ∈ before ++ after) :
        ((c.drop id (c.slot id).name).slot x).name = (c.slot x).name :=
      congrArg Entry.name (holds.drop_entry ref (holds.drop_apart inside).1 _)
    split
    · rename_i same
      refine (holds.drop_at.find?_eq_none_iff name).mpr fun x inside => ?_
      rw [named inside,same]
      exact (holds.drop_apart inside).2
    · rename_i other
      ext x
      rw [holds.drop_at.find?_eq_some_iff,holds.find?_eq_some_iff,List.perm_middle.mem_iff,
        List.mem_cons]
      constructor
      · rintro ⟨inside,rfl⟩
        exact ⟨.inr inside,(named inside).symm⟩
      · rintro ⟨rfl | inside,rfl⟩
        · exact absurd rfl other
        · exact ⟨inside,named inside⟩

end Chain

namespace World

variable {σ : Type}

/-- The world once an entry has left its chain, which is logged. -/
def without (w : World σ) (ref : SessionRef) (e : Entry) : World σ :=
  let left := w.dropEntry ref e.handle e.name
  left.logged Effect.chainLogger .debug (Bytes.ofString
    ("session " ++ toString (left.store.session ref).id ++ ": " ++ ("removed " ++ e.name)))

theorem chain_without {w : World σ} {ref : SessionRef} (present : ref < w.store.sessions.size)
    (e : Entry) :
    (w.without ref e).store.chain ref = (w.store.chain ref).drop e.handle.entry e.name :=
  chain_mapChain present (·.drop e.handle.entry e.name)

end World

namespace Effect

open World

variable {σ : Type}

/-- Runs a hook of the filter that an entry holds. -/
def consult (perform : Perform σ) (hook : Hook) (e : Entry) : Effect σ Unit :=
  match e.filter with
  | some filter => runHook perform filter hook e.name e.handle
  | none => pure ()

def consulting (hook : Hook) (e : Entry) (fuel : Nat) : Effect σ Unit :=
  consult (performWith fuel) hook e

theorem consulting_below (hook : Hook) (e : Entry) {fuel fuel' : Nat} (more : fuel ≤ fuel') :
    Below (consulting hook e fuel : Effect σ Unit) (consulting hook e fuel') := by
  unfold consulting consult
  split
  · exact below_runHook (performWith_below more) _ _ _ _
  · exact .refl _

/-- Neither of the hooks that a removal of this entry runs changes the chain, whether it returns or
fails. -/
def Harmless (perform : Perform σ) (ref : SessionRef) (e : Entry) (w : World σ) : Prop :=
  wp (consult perform .preRemove e)
    (fun _ w₁ => w₁.store.chain ref = w.store.chain ref ∧
      wp (consult perform .postRemove e)
        (fun _ w₂ => w₂.store.chain ref = (w₁.without ref e).store.chain ref)
        (fun _ w₂ => w₂.store.chain ref = (w₁.without ref e).store.chain ref) (w₁.without ref e))
    (fun _ w₁ => w₁.store.chain ref = w.store.chain ref) w

instance (perform : Perform σ) (ref : SessionRef) (e : Entry) (w : World σ) :
    Decidable (Harmless perform ref e w) := by
  unfold Harmless
  infer_instance

/-- How a removal fails before it has changed anything, and the world that it leaves. -/
inductive Withholds (perform : Perform σ) (ref : SessionRef) (w : World σ) :
    Call → Failure → World σ → Prop
  | unnamed {name : String} (missing : (w.store.chain ref).contains name = false) :
      Withholds perform ref w (.remove ref name) (.nameNotFound name) w
  | unheld {filter : Option FilterId} (missing : (w.store.chain ref).containsFilter filter = false) :
      Withholds perform ref w (.removeFilter ref filter)
        (.nameNotFound ((filter.map w.store.label).getD "null")) w
  | vetoed {c : Call} {id : EntryId} {failure : Failure} {w₁ : World σ}
      (picked : c.picks? (w.store.chain ref) = some id)
      (asked : consult perform .preRemove ((w.store.chain ref).entry ref id) w =
        .error (.failed failure) w₁) :
      Withholds perform ref w c (failure.withholds ((w.store.chain ref).entry ref id).name) w₁

/-- What is left of a removal that has failed: all of the chain, or all but the entry, if it is the
hook that runs last that has failed. -/
inductive Unremoved (perform : Perform σ) (ref : SessionRef) (w : World σ) (c : Call)
    (failure : Failure) (w' : World σ) : Prop
  | kept (cause : Withholds perform ref w c failure w')
      (same : w'.store.chain ref = w.store.chain ref)
  | gone {id : EntryId} {w₁ : World σ} (picked : c.picks? (w.store.chain ref) = some id)
      (asked : consult perform .preRemove ((w.store.chain ref).entry ref id) w = .ok () w₁)
      (told : consult perform .postRemove ((w.store.chain ref).entry ref id)
        (w₁.without ref ((w.store.chain ref).entry ref id)) = .error (.failed failure) w')
      (loses : (w.store.chain ref).Loses ref ((w.store.chain ref).entry ref id) (w'.store.chain ref))

section Removal

variable {perform : Perform σ} {ref : SessionRef} {w w' w₁ : World σ} {c : Call} {id : EntryId}
  {failure : Failure}

theorem removeEntry_vetoed (asked : consult perform .preRemove ((w.store.chain ref).entry ref id) w =
    .error (.failed failure) w₁) : removeEntry perform ref id w =
      .error (.failed (failure.withholds ((w.store.chain ref).entry ref id).name)) w₁ := by
  rw [removeEntry,bind_of_ok (chain_apply ref w)]
  unfold consult at asked
  cases held : ((w.store.chain ref).entry ref id).filter with
  | none =>
    rw [held] at asked
    cases asked
  | some filter =>
    rw [held] at asked
    dsimp only at asked ⊢
    rw [attempt_bind_failed asked]
    rfl

theorem removeEntry_leaves {filter : FilterId}
    (asked : consult perform .preRemove ((w.store.chain ref).entry ref id) w = .ok () w₁)
    (held : ((w.store.chain ref).entry ref id).filter = some filter)
    (current : (w₁.store.chain ref).isCurrent ((w.store.chain ref).handle ref id) = true) :
    removeEntry perform ref id w = (do
      consult perform .postRemove ((w.store.chain ref).entry ref id)
      return some filter) (w₁.without ref ((w.store.chain ref).entry ref id)) := by
  unfold consult at asked ⊢
  rw [held] at asked ⊢
  rw [removeEntry,bind_of_ok (chain_apply ref w)]
  dsimp only at asked ⊢
  rw [held]
  dsimp only
  rw [attempt_bind_ok asked]
  dsimp only
  rw [bind_of_ok (chain_apply ref w₁)]
  have there : (w₁.store.chain ref).isCurrent ((w.store.chain ref).entry ref id).handle = true := current
  rw [if_pos there]
  rfl

/-- One of the two hooks fails: the first one keeps the entry in its place, the other one does not. -/
theorem removeEntry_fails {ids flight : List EntryId} (holds : (w.store.chain ref).Holds ids flight)
    (picked : c.picks? (w.store.chain ref) = some id)
    (harmless : Harmless perform ref ((w.store.chain ref).entry ref id) w)
    (failed : removeEntry perform ref id w = .error (.failed failure) w') :
    Unremoved perform ref w c failure w' := by
  have member := holds.mem_of_picks (Call.picks picked)
  obtain ⟨filter,held⟩ := Option.isSome_iff_exists.mp (holds.filters id member)
  cases asked : consult perform .preRemove ((w.store.chain ref).entry ref id) w with
  | ok _ w₁ =>
    obtain ⟨same,harmless⟩ := wp_returned harmless asked
    have present : ref < w₁.store.sessions.size := picked_present (same ▸ Call.picks picked)
    have current : (w₁.store.chain ref).isCurrent ((w.store.chain ref).handle ref id) = true := by
      rw [same]
      exact holds.isCurrent ref (by simp [member])
    rw [removeEntry_leaves asked held current] at failed
    have told := error_of_bind_pure failed
    have loses := holds.drop_loses member ref
    have there := (wp_failed harmless told).trans (chain_without present _)
    rw [same] at there
    exact .gone picked asked told (there ▸ loses)
  | error stop w₁ =>
    cases stop with
    | failed before =>
      rw [removeEntry_vetoed asked] at failed
      cases failed
      exact .kept (.vetoed picked asked) (wp_failed harmless asked)
    | outOfFuel =>
      unfold consult at asked
      have holding : ((w.store.chain ref).entry ref id).filter = some filter := held
      rw [holding] at asked
      rw [removeEntry,bind_of_ok (chain_apply ref w)] at failed
      dsimp only at asked failed
      rw [holding] at failed
      dsimp only at failed
      rw [attempt_bind_stopped asked] at failed
      cases failed

end Removal

variable {ref : SessionRef} {w w' : World σ} {c : Call} {failure : Failure} {fuel : Nat}

/-- However the removal of an entry fails whose filter's hooks do not edit the chain: the chain is as it
was and has the entry, attached still, unless it is the hook after the unlinking that has failed.
Then the entry is gone, and it alone. -/
theorem failed_removal (occurs : w.Occurs) (present : ref < w.store.sessions.size) (takes : c.Takes ref)
    (harmless : ∀ id, c.picks? (w.store.chain ref) = some id →
      Harmless (performWith fuel) ref ((w.store.chain ref).entry ref id) w)
    (failed : answer (performWith fuel) c w = .error (.failed failure) w') :
    Unremoved (performWith fuel) ref w c failure w' := by
  obtain ⟨ids,flight,holds⟩ := occurs.holds ref
  have named : (needSessions [ref] : Effect σ Unit) w = .ok () w := needSessions_apply (by simpa using present)
  unfold answer at failed
  cases c with
  | remove r name =>
    obtain rfl : r = ref := takes
    rw [Call.sessions,bind_of_ok named] at failed
    have failed := error_of_bind_pure failed
    rw [remove,bind_of_ok (chain_apply r w)] at failed
    cases found : (w.store.chain r).find? name with
    | none =>
      rw [found] at failed
      cases failed
      refine .kept (.unnamed ?_) rfl
      rw [Chain.contains,found]
      rfl
    | some id =>
      rw [found] at failed
      exact removeEntry_fails holds found (harmless id found) failed
  | removeFilter r filter =>
    obtain rfl : r = ref := takes
    rw [Call.sessions,bind_of_ok named] at failed
    have failed := error_of_bind_pure failed
    rw [removeFilter,bind_of_ok (chain_apply r w)] at failed
    cases found : (w.store.chain r).holder? filter with
    | none =>
      rw [found] at failed
      cases failed
      refine .kept (.unheld ?_) rfl
      rw [Chain.containsFilter,found]
      rfl
    | some id =>
      rw [found] at failed
      exact removeEntry_fails holds found (harmless id found) (error_of_bind_pure failed)
  | _ => cases takes

def regretting : Invocation → Script Unit
  | .hook .postRemove .. => .fail (.runtime "x")
  | _ => .done .unit

def enrolling : Script Unit :=
  .call (.newHandler .adapter) fun _ => .call (.newProcessor (.loopback 0)) fun _ =>
  .call (.newSession (some 0) (some 0) 4 .unlimited) fun _ => .define regretting fun code =>
  .call (.newFilter (.custom "f" code)) fun _ => .call (.add 0 .last "own" (some 0)) fun _ =>
  .done .unit

def enrolled : World Unit := enrolling.until .never 8 { own := () }

def removing (name : String) : Effect Unit Reply := answer (performWith 8) (.remove 0 name)

theorem enrolled_occurs : enrolled.Occurs := by
  have short : enrolled.store.journal.length < 2^32 := by decide +kernel
  have sparing : ({ own := () } : World Unit).Sparing enrolled := sparing_of_short short
  exact .during (.fresh ()) .never 8 enrolling sparing

/-- The entry whose filter throws too late is gone, and that of a name that nobody has is not. -/
theorem failed_removal_late :
    Unremoved (performWith 8) 0 enrolled (.remove 0 "own") (.runtime "x") ((removing "own").leaves enrolled) ∧
    Unremoved (performWith 8) 0 enrolled (.remove 0 "other") (.nameNotFound "other")
      ((removing "other").leaves enrolled) := by
  have present : 0 < enrolled.store.sessions.size := by decide +kernel
  constructor
  · refine failed_removal enrolled_occurs present rfl ?_ (failed_of_verdict (by decide +kernel))
    intro id picked
    have found : (enrolled.store.chain 0).find? "own" = some 2 := by decide +kernel
    rw [Call.picks?,found] at picked
    cases picked
    decide +kernel
  · refine failed_removal enrolled_occurs present rfl ?_ (failed_of_verdict (by decide +kernel))
    intro id picked
    have missing : (enrolled.store.chain 0).find? "other" = none := by decide +kernel
    rw [Call.picks?,missing] at picked
    cases picked

/-- A removal fails although both hooks leave the chain alone, and the entry is gone. -/
theorem removed_and_failed :
    removing "own" enrolled = .error (.failed (.runtime "x")) ((removing "own").leaves enrolled) ∧
      (enrolled.store.chain 0).contains "own" = true ∧
      (((removing "own").leaves enrolled).store.chain 0).contains "own" = false ∧
      enrolled.store.isAttached ⟨0,2,0⟩ = true ∧
      ((removing "own").leaves enrolled).store.isAttached ⟨0,2,0⟩ = false := by
  refine ⟨failed_of_verdict (by decide +kernel),?_⟩
  decide +kernel

end Effect
end SessionPipeline
