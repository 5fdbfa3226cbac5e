import SessionPipeline.Proofs.Effect.Hooked
import SessionPipeline.Proofs.Filter.Leftover

/-! Codecs are tidied up after. As long as no hook edits a chain and none but a codec takes the place of
a codec, whatever is done to a session leaves the world tidy: so a codec that no entry holds keeps
nothing, and one that comes back starts on a fresh stream. -/
namespace SessionPipeline

/-- Tidy code that edits these chains. -/
def Terms.tame (edits : SessionRef → Prop) : Terms := ⟨fun _ => False,fun _ => False,edits,True⟩

namespace World

variable {σ : Type} {w w₁ w₂ w₃ : World σ}

/-- As many sessions and filters at least. -/
structure Grows (w w' : World σ) : Prop where
  sessions : w.store.sessions.size ≤ w'.store.sessions.size
  filters : w.store.filters.size ≤ w'.store.filters.size

theorem Grows.refl (w : World σ) : w.Grows w := ⟨Nat.le_refl _,Nat.le_refl _⟩

theorem Grows.trans (first : w₁.Grows w₂) (second : w₂.Grows w₃) : w₁.Grows w₃ :=
  ⟨Nat.le_trans first.sessions second.sessions,Nat.le_trans first.filters second.filters⟩

theorem Stays.grows (stays : w₁.Stays w₂) : w₁.Grows w₂ := ⟨stays.sessions,stays.filters_le⟩

theorem grows_mapChain (w : World σ) (ref : SessionRef) (change : Chain → Chain) :
    w.Grows (w.mapChain ref change) := ⟨Nat.le_of_eq (sessions_mapSession w ref _).symm,Nat.le_refl _⟩

theorem grows_edit (w : World σ) (ref : SessionRef) (change : Chain → Chain) (o : Observation) :
    w.Grows ((w.mapChain ref change).record o) :=
  ⟨Nat.le_of_eq (sessions_mapSession w ref _).symm,Nat.le_refl _⟩

end World

namespace Chain

/-- The entry holds the filter under the name. -/
structure Seats (c : Chain) (id : EntryId) (name : String) (filter : FilterId) : Prop where
  between : id ≠ head ∧ id ≠ tail
  linked : (c.slot id).linked = true
  named : (c.slot id).name = name
  holding : (c.slot id).filter = some filter

theorem Seats.setFilter {c : Chain} {id : EntryId} {name : String} {old : FilterId}
    (seats : c.Seats id name old) (new : FilterId) : (c.setFilter id new).Seats id name new := by
  have inside : id < c.slots.size := by
    by_contra outside
    have linked := seats.linked
    simp [slot,outside] at linked
  have slot := setFilter_slot c id new id
  rw [if_pos ⟨rfl,inside⟩] at slot
  exact ⟨seats.between,by rw [slot]; exact seats.linked,by rw [slot]; exact seats.named,by rw [slot]⟩

end Chain

namespace Effect

open World

variable {σ : Type} {w w' : World σ} {perform : Perform σ} {ref : SessionRef} {name : String}
  {handle : Handle} {id : FilterId}

abbrev grounded : SessionRef → List EntryId := fun _ => []

/-- To edit nothing, and to leave tidy worlds tidy even in the middle of an edit. -/
def resting : Contract σ where
  terms := .tame fun _ => False
  ended w w' := w.Stays w' ∧ ∀ flight, w.Tidy flight → w'.Tidy flight
  stopped w w' := w.Stays w' ∧ ∀ flight, w.Tidy flight → w'.Tidy flight

instance : Permissive (resting : Contract σ) where
  refl w := ⟨.refl w,fun _ tidy => tidy⟩
  trans first second := ⟨first.1.trans second.1,fun flight tidy => second.2 flight (first.2 flight tidy)⟩
  quiet quiet := ⟨quiet.stays,fun _ => quiet.tidy trivial⟩
  stop related := related
  after first second := ⟨first.1.trans second.1,fun flight tidy => second.2 flight (first.2 flight tidy)⟩
  awaited w _ _ _ := ⟨{ Stays.refl w with },fun _ tidy => ⟨tidy.inOrder,tidy.known,tidy.clean⟩⟩

/-- To leave tidy worlds tidy, with no slot in flight in the end. -/
def tending : Contract σ where
  terms := .tame fun _ => True
  ended w w' := w.Tidy grounded → w.Grows w' ∧ w'.Tidy grounded
  stopped w w' := w.Tidy grounded → ∃ flight, w'.Tidy flight

instance : Permissive (tending : Contract σ) where
  refl w tidy := ⟨.refl w,tidy⟩
  trans first second tidy := by
    obtain ⟨grows,between⟩ := first tidy
    obtain ⟨grows',after⟩ := second between
    exact ⟨grows.trans grows',after⟩
  quiet quiet tidy := ⟨quiet.stays.grows,quiet.tidy trivial tidy⟩
  stop related tidy := ⟨_,(related tidy).2⟩
  after first second tidy := second (first tidy).2
  awaited _ _ _ _ tidy := ⟨⟨Nat.le_refl _,Nat.le_refl _⟩,tidy.inOrder,tidy.known,tidy.clean⟩

theorem tending_of_resting (related : resting.ended w w') : tending.ended w w' :=
  fun tidy => ⟨related.1.grows,related.2 _ tidy⟩

/-- In a world that is not tidy nothing is to be kept. -/
theorem meets_of_tidy {α : Type} {m : Effect σ α} (meets : w.Tidy grounded → Meets tending w m w) :
    Meets tending w m w := by
  by_cases tidy : w.Tidy grounded
  · exact meets tidy
  · unfold Meets ends
    split <;> exact fun now => absurd now tidy

/-- Only the hook of an application's filter fails once its entry is there. -/
theorem runHook_postAdd_failed {failure : Failure}
    (failed : runHook perform id .postAdd name handle w = .error (.failed failure) w') :
    (w.store.filter id).isCodec = false := by
  unfold runHook at failed
  rw [bind_of_ok (observe_apply _ w),bind_of_ok (filter_apply id _)] at failed
  rw [filter_record] at failed
  cases kind : w.store.filter id with
  | codec =>
    rw [kind] at failed
    cases failed
  | _ => rfl

/-- A codec that has left takes its unfinished input with it. -/
theorem runHook_postRemove (isCodec : (w.store.filter id).isCodec = true) :
    runHook perform id .postRemove name handle w =
      .ok () ((w.record (.hooked id .postRemove name handle)).mapSession handle.owner
        (·.removeAttribute (.pending id))) := by
  unfold runHook
  rw [bind_of_ok (observe_apply _ w),bind_of_ok (filter_apply id _)]
  rw [filter_record]
  cases kind : w.store.filter id with
  | codec => rfl
  | _ =>
    rw [kind] at isCodec
    cases isCodec

theorem admitCodec_ok {others : List (String × FilterId)}
    (returned : admitCodec id name ref others w = .ok () w') :
    (w'.store.chain = w.store.chain ∧ w'.store.filters = w.store.filters) ∧
      (∀ codec, (w.store.session ref).pendingOf codec = [] →
        (w'.store.session ref).pendingOf codec = []) ∧
      ∀ other ∈ others, other.1 = name ∧
        (other.2 ≠ id → (w'.store.session ref).pendingOf other.2 = []) := by
  induction others generalizing w with
  | nil =>
    cases returned
    exact ⟨⟨rfl,rfl⟩,fun _ empty => empty,by simp⟩
  | cons other rest ih =>
    obtain ⟨entry,codec⟩ := other
    unfold admitCodec at returned
    dsimp only at returned
    split at returned
    · cases returned
    · rename_i named
      have named : entry = name := by simpa using named
      split at returned
      · rw [discardPending,bind_of_ok (modifySession_apply ref _ w)] at returned
        obtain ⟨⟨chain,filters⟩,less,cleared⟩ := ih returned
        have gone := pendingOf_erased w ref codec
        refine ⟨⟨chain.trans (funext fun r => ?_),filters⟩,fun other empty => less other ?_,?_⟩
        · refine chain_mapSession (fun s => ?_) w ref r
          rfl
        · by_contra pending
          exact pending_of_mapSession (fun _ => Session.pending_of_removeAttribute) pending empty
        · rintro other member
          rcases List.mem_cons.mp member with rfl | later
          · exact ⟨named,fun _ => less codec gone⟩
          · exact cleared other later
      · rename_i self
        obtain ⟨stays,less,cleared⟩ := ih returned
        refine ⟨stays,less,fun other member => ?_⟩
        rcases List.mem_cons.mp member with rfl | later
        · exact ⟨named,fun differs => absurd (by simpa using self) differs⟩
        · exact cleared other later

/-- A codec that is let in has looked at every entry that holds one. -/
theorem runHook_preAdd_admits (isCodec : (w.store.filter id).isCodec = true)
    (returned : runHook perform id .preAdd name handle w = .ok () w') :
    ∃ others, admitCodec id name handle.owner others (w.record (.hooked id .preAdd name handle)) =
        .ok () w' ∧
      ∀ entry ∈ (w.store.chain handle.owner).forwards, ∀ other,
        ((w.store.chain handle.owner).slot entry).filter = some other →
        (w.store.filter other).isCodec = true →
        (((w.store.chain handle.owner).slot entry).name,other) ∈ others := by
  unfold runHook at returned
  rw [bind_of_ok (observe_apply _ w),bind_of_ok (filter_apply id _)] at returned
  rw [filter_record] at returned
  cases kind : w.store.filter id with
  | codec =>
    rw [kind] at returned
    obtain ⟨others,w₁,found,admitted⟩ := ok_of_bind returned
    cases found
    refine ⟨_,admitted,fun entry listed other holding also' => ?_⟩
    refine List.mem_filterMap.mpr ⟨(w.store.chain handle.owner).entry handle.owner entry,?_,?_⟩
    · exact List.mem_map_of_mem listed
    · have entryHolds : ((w.store.chain handle.owner).entry handle.owner entry).filter = some other :=
        holding
      rw [entryHolds,Option.bind_some]
      exact if_pos also'
  | _ =>
    rw [kind] at isCodec
    cases isCodec

/-- A codec that is let in finds none under another name and empties the one whose place it takes. -/
theorem runHook_preAdd (isCodec : (w.store.filter id).isCodec = true)
    (returned : runHook perform id .preAdd name handle w = .ok () w') {entry : EntryId}
    {other : FilterId} (listed : entry ∈ (w.store.chain handle.owner).forwards)
    (holding : ((w.store.chain handle.owner).slot entry).filter = some other)
    (also' : (w.store.filter other).isCodec = true) (differs : other ≠ id) :
    (w'.store.session handle.owner).pendingOf other = [] := by
  obtain ⟨others,admitted,listing⟩ := runHook_preAdd_admits isCodec returned
  exact ((admitCodec_ok admitted).2.2 _ (listing entry listed other holding also')).2 differs

section Hooks

variable (hooked : Hooked (resting : Contract σ) perform)
include hooked

theorem keeping_hook (id : FilterId) (hook : Hook) (name : String) (handle : Handle) :
    Keeping resting (runHook perform id hook name handle) :=
  keeping_runHook (fun code => hooked code hook name handle) id

/-- A new entry is seated behind a hook, or its slot is freed. -/
theorem admitEntry_tends (tidy : w.Tidy grounded) (present : ref < w.store.sessions.size)
    (position : Position) (known : id < w.store.filters.size) :
    ends (admitEntry perform ref position name id)
      (fun handle w' => handle.owner = ref ∧ (w'.store.chain ref).Seats handle.entry name id ∧
        w.Grows w' ∧ w'.Tidy grounded)
      (fun _ w' => w.Grows w' ∧ w'.Tidy grounded) (fun w' => ∃ flight, w'.Tidy flight) w := by
  unfold admitEntry
  rw [ends_bind_of_ok (chain_apply ref w),ends_bind,ends_ofExcept]
  cases (w.store.chain ref).checkAddition name position with
  | error failure => exact ⟨.refl w,tidy⟩
  | ok =>
    dsimp only
    rw [ends_bind_of_ok (allocateEntry_apply ref name id w),ends_bind,ends_attempt]
    let handle := (w.store.chain ref).reserved ref name id
    have reserved : (w.reserve ref name id).Tidy (flying grounded ref handle.entry) :=
      tidy.reserve present name id
    have grew : w.Grows (w.reserve ref name id) := grows_mapChain w ref _
    have aloft {w₁ : World σ} (hook : resting.ended (w.reserve ref name id) w₁) :
        w.Grows w₁ ∧ ref < w₁.store.sessions.size ∧ w₁.Tidy (flying grounded ref handle.entry) := by
      have grew := grew.trans hook.1.grows
      exact ⟨grew,Nat.lt_of_lt_of_le present grew.sessions,hook.2 _ reserved⟩
    have freed {w₁ : World σ} (hook : resting.ended (w.reserve ref name id) w₁) :
        w.Grows (w₁.discardEntry ref handle) ∧ (w₁.discardEntry ref handle).Tidy grounded := by
      obtain ⟨grew,present',tidy'⟩ := aloft hook
      exact ⟨grew.trans (grows_edit w₁ ref _ _),tidy'.discard rfl present'⟩
    refine ends_mono (keeping_hook hooked id .preAdd name _ _) ?_ ?_ ?_
    · intro _ w₁ hook
      dsimp only
      rw [ends_bind_of_ok (chain_apply ref w₁)]
      cases admissible : (w₁.store.chain ref).checkAddition name position with
      | error failure => exact freed hook
      | ok =>
        obtain ⟨grew,present',tidy'⟩ := aloft hook
        have slot := reserved_slot tidy.inOrder present name id
        rw [← hook.1.chain] at slot
        have linked := tidy'.link present' admissible (congrArg Slot.name slot)
          (congrArg Slot.filter slot) (Nat.lt_of_lt_of_le known grew.filters)
        obtain ⟨between,_,there,about⟩ := linkEntry_slot tidy'.inOrder present' admissible
        rw [slot] at about
        obtain ⟨named,rest⟩ := Prod.mk.inj about
        have grows : w₁.Grows (w₁.linkEntry ref handle name position) := grows_edit w₁ ref _ _
        exact ⟨rfl,⟨between,there,named,(Prod.mk.inj rest).1⟩,grew.trans grows,linked⟩
    · exact fun _ w₁ hook => freed hook
    · exact fun w₁ hook => ⟨_,(aloft hook).2.2⟩

/-- A filter whose hook fails leaves the chain again, and has kept nothing. -/
theorem confirmEntry_tends (present : ref < w.store.sessions.size) (known : id < w.store.filters.size)
    (seats : (w.store.chain ref).Seats handle.entry name id) :
    Meets tending w (confirmEntry perform ref name id handle) w := by
  refine meets_of_tidy fun tidy => ?_
  unfold confirmEntry
  refine meets_attempt (keeping_hook hooked id .postAdd name handle) (fun w' hook => ?_)
    (fun _ w' _ hook => ?_) fun failure w' failed hook => ?_
  · exact Lawful.stop (R := tending) (tending_of_resting hook)
  · exact tending_of_resting hook
  · have before := tending_of_resting hook
    rw [← hook.1.chain] at seats
    have present := Nat.lt_of_lt_of_le present hook.1.sessions
    have tidy' := hook.2 _ tidy
    dsimp only
    rw [meets_bind_of_ok (chain_apply ref w')]
    split
    · rw [meets_bind_of_ok (dropEntry_apply ref _ name w')]
      refine (keeping_logFail ref .debug _ failure).from fun _ => ⟨hook.1.grows.trans (grows_edit w' ref _ _),?_⟩
      refine tidy'.dropEntry present seats.between seats.linked seats.named fun f holding => ?_
      obtain rfl := Option.some.inj (seats.holding.symm.trans holding)
      exact tidy'.empty ((hook.1.filter known).2.trans (runHook_postAdd_failed failed)) ref
    · exact (keeping_logFail ref .debug _ failure).from before

theorem add_tends (present : ref < w.store.sessions.size) (position : Position) (name : String)
    {filter? : Option FilterId} (known : ∀ id ∈ filter?, id < w.store.filters.size) :
    Meets tending w (add perform ref position name filter?) w := by
  refine meets_of_tidy fun tidy => ?_
  cases filter? with
  | none => exact fun _ => ⟨.refl w,tidy⟩
  | some id =>
    have known := known id rfl
    rw [add_some,meets_bind]
    refine ends_mono (admitEntry_tends hooked tidy present position known) ?_
      (fun _ _ before _ => before) fun _ stopped _ => stopped
    rintro handle w₁ ⟨_,seats,grew,tidy'⟩
    have before : tending.ended w w₁ := fun _ => ⟨grew,tidy'⟩
    rw [meets_bind_of_ok (store_apply w₁),meets_bind_of_ok (logChain_apply ref _ _ w₁)]
    refine Meets.from (confirmEntry_tends hooked ?_ ?_ ?_)
      (Lawful.trans before (Lawful.quiet (.logged w₁ _ _ _ _)))
    · exact Nat.lt_of_lt_of_le present grew.sessions
    · exact Nat.lt_of_lt_of_le known grew.filters
    · exact seats

theorem addAll_tends {entries : List (String × FilterId)} (present : ref < w.store.sessions.size)
    (known : ∀ entry ∈ entries, entry.2 < w.store.filters.size) :
    Meets tending w (addAll perform ref entries) w := by
  induction entries generalizing w with
  | nil => exact Lawful.refl (R := tending) w
  | cons entry rest ih =>
    refine meets_of_tidy fun tidy => ?_
    unfold addAll
    have first : ∀ id ∈ some entry.2, id < w.store.filters.size := by
      rintro _ ⟨⟩
      exact known entry List.mem_cons_self
    refine (add_tends hooked present .last entry.1 first).bind fun _ w₁ before => ?_
    have grew := (before tidy).1
    exact (ih (Nat.lt_of_lt_of_le present grew.sessions) fun entry member =>
      Nat.lt_of_lt_of_le (known entry (List.mem_cons_of_mem _ member)) grew.filters).from before

/-- A codec that leaves takes its unfinished input with it; other filters have kept none. -/
theorem leftEntry_tends {w₀ : World σ} {filter : FilterId} (before : tending.ended w₀ w)
    (tidy : w.Tidy grounded) (present : ref < w.store.sessions.size) (owner : handle.owner = ref)
    (seats : (w.store.chain ref).Seats handle.entry name filter) (text : Bytes) :
    Meets tending w₀ (do
        runHook perform filter .postRemove name handle
        return some filter : Effect σ (Option FilterId))
      ((w.dropEntry ref handle name).logged chainLogger .debug text) := by
  subst owner
  have dropped : w.Grows (w.dropEntry handle.owner handle name) := grows_edit w handle.owner _ _
  generalize gone : (w.dropEntry handle.owner handle name).logged chainLogger .debug text = u
  have sessions : u.store.sessions = (w.dropEntry handle.owner handle name).store.sessions := by
    rw [← gone]
    rfl
  have filters : u.store.filters = w.store.filters := by
    rw [← gone]
    rfl
  have grows : w.Grows u :=
    ⟨sessions ▸ dropped.sessions,Nat.le_of_eq (congrArg Array.size filters).symm⟩
  have kept : u.store.filter filter = w.store.filter filter := by rw [Store.filter,filters]; rfl
  cases kind : (w.store.filter filter).isCodec with
  | true =>
    rw [meets_bind_of_ok (runHook_postRemove (kept ▸ kind))]
    refine Lawful.trans before fun _ => ⟨?_,?_⟩
    · exact grows.trans ⟨Nat.le_of_eq (sessions_mapSession _ _ _).symm,Nat.le_refl _⟩
    · exact tidy.erased present sessions filters seats.between seats.linked seats.named seats.holding
  | false =>
    have left' : (w.dropEntry handle.owner handle name).Tidy grounded := by
      refine tidy.dropEntry present seats.between seats.linked seats.named fun f holding => ?_
      obtain rfl := Option.some.inj (seats.holding.symm.trans holding)
      exact tidy.empty kind _
    have logged : ((w.dropEntry handle.owner handle name).logged chainLogger .debug text).Tidy
        grounded := ⟨left'.inOrder,left'.known,left'.clean⟩
    have after : tending.ended w₀ u := Lawful.trans before fun _ => ⟨grows,gone ▸ logged⟩
    have told : Keeping tending (runHook perform filter .postRemove name handle) :=
      (keeping_hook hooked filter .postRemove name handle).weaken (fun _ _ => tending_of_resting)
        fun _ _ hook => Lawful.stop (R := tending) (tending_of_resting hook)
    exact (told.bind fun _ => keeping_pure _).from after

theorem removeEntry_tends {id : EntryId} (picked : (w.store.chain ref).Picks id)
    (present : ref < w.store.sessions.size) : Meets tending w (removeEntry perform ref id) w := by
  refine meets_of_tidy fun tidy => ?_
  unfold removeEntry
  rw [meets_bind_of_ok (chain_apply ref w)]
  dsimp only
  split
  · exact Lawful.refl (R := tending) w
  · rename_i filter holding
    obtain ⟨ids,holds⟩ := tidy.inOrder ref
    have member := holds.mem_of_picks picked
    have between := holds.between member
    have linked : ((w.store.chain ref).slot id).linked = true := (holds.flags id).mpr (by simp [member])
    refine meets_attempt (keeping_hook hooked filter .preRemove _ _) (fun w' hook => ?_)
      (fun _ w' _ hook => ?_) fun failure w' _ hook => ?_
    · exact Lawful.stop (R := tending) (tending_of_resting hook)
    · have before := tending_of_resting hook
      have present := Nat.lt_of_lt_of_le present hook.1.sessions
      have tidy' := hook.2 _ tidy
      have seats : (w'.store.chain ref).Seats id ((w.store.chain ref).slot id).name filter := by
        rw [hook.1.chain]
        exact ⟨between,linked,rfl,holding⟩
      dsimp only
      rw [meets_bind_of_ok (chain_apply ref w')]
      split
      · rw [meets_bind_of_ok (dropEntry_apply ref _ _ w'),meets_bind_of_ok (logChain_apply ref _ _ _)]
        exact leftEntry_tends hooked before tidy' present rfl seats _
      · exact before
    · exact (keeping_vetoed _ failure).from (tending_of_resting hook)

theorem remove_tends (present : ref < w.store.sessions.size) (name : String) :
    Meets tending w (remove perform ref name) w := by
  unfold remove
  rw [meets_bind_of_ok (chain_apply ref w)]
  split
  · rename_i id found
    exact removeEntry_tends hooked (.named found) present
  · exact Lawful.refl (R := tending) w

theorem removeFilter_tends (present : ref < w.store.sessions.size) (filter : Option FilterId) :
    Meets tending w (removeFilter perform ref filter) w := by
  unfold removeFilter
  rw [meets_bind_of_ok (chain_apply ref w)]
  split
  · rename_i id found
    exact (removeEntry_tends hooked (.holding found) present).bind fun _ _ before => before
  · exact keeping_store.bind (fun _ => keeping_fail _) w

/-- The first entry of a chain that has one is of a session that there is. -/
theorem clear_tends (goesOn : Keeping tending (perform (.clear ref))) :
    Keeping tending (clear perform ref) := by
  intro w
  unfold clear
  rw [meets_bind_of_ok (chain_apply ref w)]
  split
  · rename_i id found
    split
    · exact Lawful.refl (R := tending) w
    · rename_i entry
      have picked : (w.store.chain ref).Picks id := .first found (by simpa using entry)
      refine (removeEntry_tends hooked picked ?_).bind fun _ _ before => ?_
      · by_contra absent
        rw [chain_absent absent] at found
        cases found
        exact entry rfl
      · exact (goesOn.bind fun _ => keeping_pure ()).from before
  · exact Lawful.refl (R := tending) w

omit hooked in
theorem putBack_tends {w₀ : World σ} {old new : FilterId} {failure : Failure}
    (before : tending.ended w₀ w) (tidy : w.Tidy grounded) (present : ref < w.store.sessions.size)
    (seats : (w.store.chain ref).Seats handle.entry name new) (plain : (w.store.filter new).isCodec = false)
    (known : old < w.store.filters.size) :
    Meets tending w₀ (putBack ref handle old failure : Effect σ (Option FilterId)) w := by
  unfold putBack
  rw [meets_bind_of_ok (chain_apply ref w)]
  dsimp only
  split
  · rw [meets_bind_of_ok (modifyChain_apply ref _ w)]
    refine Lawful.trans before fun _ => ⟨grows_mapChain w ref _,?_⟩
    refine tidy.setFilter present seats.between seats.linked known fun f holding _ => ?_
    obtain rfl := Option.some.inj (seats.holding.symm.trans holding)
    exact tidy.empty plain ref
  · exact before

/-- A filter that has taken the place of another makes way again if its hook fails. -/
theorem exchanged_tends {w₀ : World σ} {old new : FilterId} (before : tending.ended w₀ w)
    (tidy : w.Tidy grounded) (present : ref < w.store.sessions.size)
    (seats : (w.store.chain ref).Seats handle.entry name new) (known : new < w.store.filters.size)
    (former : old < w.store.filters.size) :
    Meets tending w₀ (do
      match ← attempt (runHook perform new .postAdd name handle) with
      | .error failure => putBack ref handle old failure
      | .ok () => return some old : Effect σ (Option FilterId)) w := by
  have after {w' : World σ} (hook : resting.ended w w') : tending.ended w₀ w' :=
    Lawful.trans before (tending_of_resting hook)
  refine meets_attempt (keeping_hook hooked new .postAdd name handle) (fun w' hook => ?_)
    (fun _ w' _ hook => after hook) fun failure w' failed hook => ?_
  · exact Lawful.stop (R := tending) (after hook)
  · rw [← hook.1.chain] at seats
    have plain := (hook.1.filter known).2.trans (runHook_postAdd_failed failed)
    exact putBack_tends (after hook) (hook.2 _ tidy) (Nat.lt_of_lt_of_le present hook.1.sessions) seats
      plain (hook.1.filter former).1

/-- Another filter takes the place only of one that keeps nothing. -/
theorem exchange_tends {w₀ : World σ} {old new : FilterId} (before : tending.ended w₀ w)
    (tidy : w.Tidy grounded) (present : ref < w.store.sessions.size)
    (seats : (w.store.chain ref).Seats handle.entry name old)
    (known : new < w.store.filters.size)
    (empty : old ≠ new → (w.store.session ref).pendingOf old = []) :
    Meets tending w₀ (exchange perform ref name new handle) w := by
  unfold exchange
  rw [meets_bind_of_ok (chain_apply ref w)]
  dsimp only
  split
  · exact before
  · rw [seats.holding]
    dsimp only
    rw [meets_bind_of_ok (modifyChain_apply ref _ w),meets_bind_of_ok (store_apply _),
      meets_bind_of_ok (logChain_apply ref _ _ _)]
    obtain ⟨ids,holds⟩ := tidy.inOrder ref
    have member := holds.mem_of_linked seats.linked seats.between
    have former := tidy.known ref _ _ ((holds.held_eq member).trans seats.holding)
    have put : (w.mapChain ref (·.setFilter handle.entry new)).Tidy grounded := by
      refine tidy.setFilter present seats.between seats.linked known fun f holding differs => ?_
      obtain rfl := Option.some.inj (seats.holding.symm.trans holding)
      exact empty differs
    have grew := grows_mapChain w ref (·.setFilter handle.entry new)
    have seats' : ((w.mapChain ref (·.setFilter handle.entry new)).store.chain ref).Seats handle.entry
        name new := chain_mapChain present (·.setFilter handle.entry new) ▸ seats.setFilter new
    refine exchanged_tends hooked (Lawful.trans before fun _ => ⟨?_,put.inOrder,put.known,put.clean⟩)
      ⟨put.inOrder,put.known,put.clean⟩ (Nat.lt_of_lt_of_le present grew.sessions) seats' known former
    exact ⟨grew.sessions,grew.filters⟩

theorem replace_tends (present : ref < w.store.sessions.size) (name : String)
    {filter? : Option FilterId} (fits : ∀ id ∈ filter?, id < w.store.filters.size ∧
      ∀ old, (w.store.chain ref).get name = .ok (some old) →
        (w.store.filter old).isCodec = true → (w.store.filter id).isCodec = true) :
    Meets tending w (replace perform ref name filter?) w := by
  refine meets_of_tidy fun tidy => ?_
  cases filter? with
  | none => exact Lawful.refl (R := tending) w
  | some new =>
    obtain ⟨known,codecs⟩ := fits new rfl
    unfold replace
    rw [meets_bind_of_ok (needFilter_apply name new w),meets_bind_of_ok (chain_apply ref w)]
    cases found : (w.store.chain ref).find? name with
    | none =>
      rw [getHandle_eq_error ref found]
      exact Lawful.refl (R := tending) w
    | some id =>
      obtain ⟨ids,holds⟩ := tidy.inOrder ref
      obtain ⟨member,named⟩ := (holds.find?_eq_some_iff name id).mp found
      obtain ⟨old,holding⟩ := Option.isSome_iff_exists.mp (holds.filters id member)
      have seats : (w.store.chain ref).Seats id name old :=
        ⟨holds.between member,(holds.flags id).mpr (by simp [member]),named,holding⟩
      have got : (w.store.chain ref).get name = .ok (some old) := by rw [Chain.get,found,← holding]
      have held := (holds.held_eq member).trans holding
      rw [getHandle_eq_ok ref found,meets_bind_of_ok (ofExcept_apply _ w)]
      refine meets_attempt (keeping_hook hooked new .preAdd name _) (fun w' hook => ?_)
        (fun _ w' returned hook => ?_) fun failure w' _ hook => ?_
      · exact Lawful.stop (R := tending) (tending_of_resting hook)
      · have kind := (hook.1.filter (tidy.known ref id old held)).2
        rw [← hook.1.chain] at seats
        refine exchange_tends hooked (tending_of_resting hook) (hook.2 _ tidy)
          (Nat.lt_of_lt_of_le present hook.1.sessions) seats (hook.1.filter known).1 fun differs => ?_
        cases codec : (w.store.filter old).isCodec with
        | false => exact (hook.2 _ tidy).empty (kind.trans codec) ref
        | true =>
          have listed : id ∈ (w.store.chain ref).forwards := holds.forwards_eq ▸ member
          exact runHook_preAdd (codecs old got codec) returned listed holding codec differs
      · exact tending_of_resting hook

theorem tending_edits (goesOn : ∀ ref, Keeping tending (perform (.clear ref))) :
    Edits tending perform where
  calls {c w} editing fits named := by
    have finish (reply : Reply) : Keeping tending (pure reply : Effect σ Reply) := keeping_pure reply
    cases c with
    | add ref position name filter =>
      have present := named ref (by simp [Call.sessions])
      exact (add_tends hooked present position name (fits.2 trivial)).bind fun _ _ => (finish _).from
    | remove ref name =>
      have present := named ref (by simp [Call.sessions])
      exact (remove_tends hooked present name).bind fun _ _ => (finish _).from
    | removeFilter ref filter =>
      have present := named ref (by simp [Call.sessions])
      exact (removeFilter_tends hooked present filter).bind fun _ _ => (finish _).from
    | replace ref name filter =>
      have present := named ref (by simp [Call.sessions])
      exact (replace_tends hooked present name (fits.2 trivial)).bind fun _ _ => (finish _).from
    | clear ref => exact keeping_unit (clear_tends hooked (goesOn ref)) w
    | addAll ref entries =>
      have present := named ref (by simp [Call.sessions])
      exact (addAll_tends hooked present (fits.2 trivial)).bind fun _ _ => (finish _).from
    | _ => cases editing
  clears _ := clear_tends hooked (goesOn _)

end Hooks

end Effect

/-- Wherever a run is that edits no chain from within hooks and puts none but a codec in the place of a
codec: a codec that no entry of a session's chain holds keeps no input for that session. -/
theorem Script.around_pending {σ : Type} {hooks stops : Watch σ} {fuel : Nat} {script : Script σ}
    {own : σ} {v : World σ} (gentle : hooks.Abides (.tame fun _ => False))
    (orderly : stops.Abides (.tame fun _ => True))
    (ran : script.around hooks stops fuel { own := own } = v) {ref : SessionRef} {codec : FilterId}
    (absent : (v.store.chain ref).containsFilter (some codec) = false) :
    v.store.pendingBytes codec ref = 0 := by
  have fresh : ({ own := own } : World σ).Tidy Effect.grounded := by
    refine ⟨World.fresh_inOrder own,fun r id f held => ?_,fun r codec pending => absurd rfl pending⟩
    rw [World.chain_absent (Nat.not_lt_zero r)] at held
    obtain ⟨linked,⟨notHead,notTail⟩,_⟩ := Chain.held_eq_some_iff.mp held
    have member := (Chain.empty_holds.flags id).mp linked
    simp [notHead,notTail] at member
  have around := Effect.around_keeps (R := Effect.tending) (H := Effect.resting) gentle
    (fun perform _ => Effect.edits_none (fun _ => id) perform) orderly
    (fun _ _ => Effect.tending_of_resting)
    (fun _ _ hook => Effect.Lawful.stop (R := Effect.tending) (Effect.tending_of_resting hook))
    (fun perform performs hooked => Effect.tending_edits hooked fun ref w => performs _ w trivial)
    fuel script { own := own }
  obtain ⟨flight,tidy⟩ := around fresh
  rw [ran] at tidy
  by_contra kept
  have pending : (v.store.session ref).pendingOf codec ≠ [] := fun none =>
    kept (by rw [Store.pendingBytes,none]; rfl)
  obtain ⟨_,id,held⟩ := tidy.clean ref codec pending
  obtain ⟨ids,holds⟩ := tidy.inOrder ref
  rw [holds.containsFilter held] at absent
  cases absent

/-- Stops at calls that tidy code does not make, and at some that it may. -/
def orderly {σ : Type} : Watch σ
  | .step (.call (.setAttribute ..) _),_ | .step (.call (.addAll ..) _),_ => true
  | .step (.call (.forward handle ref _) _),_ => handle.owner != ref
  | .step (.call (.add _ _ _ (some id)) _),w => w.store.filters.size ≤ id
  | .step (.call (.replace ref name (some id)) _),w =>
    w.store.filters.size ≤ id || match (w.store.chain ref).get name with
      | .ok (some old) => (w.store.filter old).isCodec && !(w.store.filter id).isCodec
      | _ => false
  | _,_ => false

theorem orderly_abides {σ : Type} : (orderly : Watch σ).Abides (.tame fun _ => True) := by
  intro c next w going
  cases c with
  | setAttribute | addAll => cases going
  | forward handle ref event => exact ⟨fun _ _ => False.elim,fun _ => by simpa [orderly] using going⟩
  | add ref position name filter =>
    refine ⟨trivial,?_⟩
    rintro _ id ⟨⟩
    simpa [orderly] using going
  | replace ref name filter =>
    refine ⟨trivial,?_⟩
    rintro _ id ⟨⟩
    simp only [orderly,Bool.or_eq_false_iff,decide_eq_false_iff_not,Nat.not_le] at going
    refine ⟨going.1,fun old got codec => ?_⟩
    have kept := going.2
    rw [got] at kept
    simpa [codec] using kept
  | _ => simp [Call.Fits,Terms.tame]

/-- Half a frame has reached a codec, and then another filter takes its place. -/
def halfFrame (other : Filter) : Script Unit :=
  .call (.newHandler .adapter) fun _ => .call (.newProcessor (.loopback 0)) fun _ =>
  .call (.newSession (some 0) (some 0) 4 .unlimited) fun _ => .call (.newFilter (.codec 64 64)) fun _ =>
  .call (.newFilter other) fun _ => .call (.add 0 .last "codec" (some 0)) fun _ =>
  .call (.fire 0 (.messageReceived (.bytes [5,1]))) fun _ =>
  .call (.replace 0 "codec" (some 1)) fun _ => .done .unit

def swapped : World Unit := (halfFrame (.codec 64 64)).around calling orderly 8 { own := () }

theorem around_pending_swapped :
    (swapped.store.chain 0).containsFilter (some 0) = false ∧ swapped.store.pendingBytes 0 0 = 0 := by
  have absent : (swapped.store.chain 0).containsFilter (some 0) = false := by decide +kernel
  exact ⟨absent,Script.around_pending (calling_abides _) orderly_abides rfl absent⟩

/-- A filter of another kind leaves the input of the codec behind. -/
theorem pending_left_behind :
    (((halfFrame .noop).execute 8 { own := () }).2.store.chain 0).containsFilter (some 0) = false ∧
      ((halfFrame .noop).execute 8 { own := () }).2.store.pendingBytes 0 0 = 2 := by
  decide +kernel

end SessionPipeline
