import Mathlib.Algebra.Group.Nat.Defs
import Mathlib.Logic.Relation
import SessionPipeline.Proofs.Chain.Consistency
import SessionPipeline.Proofs.Effect.Execution

/-! Chains stay in order whatever hooks do in the middle of an edit. A slot that an outer edit has
taken is in flight meanwhile: nothing touches it. An entry is told from a later one in its slot by
the generation, a 32-bit count of how often the slot was freed, so no slot may be freed 2^32 times
within one run. What becomes of a world is then a course of single moves, whatever is nested in
what. -/
namespace SessionPipeline

def Observation.frees (ref : SessionRef) (id : EntryId) : Observation → Bool
  | .unlinked h | .discarded h => h.owner == ref && h.entry == id
  | _ => false

/-- Tells neither of an edit nor of an event on its way. -/
def Observation.still : Observation → Bool
  | .linked _ | .unlinked _ | .discarded _ | .delivered .. | .arrived .. => false
  | _ => true

/-- How often a slot has been freed. -/
def Store.releases (s : Store) (ref : SessionRef) (id : EntryId) : Nat :=
  s.journal.countP (·.frees ref id)

theorem Chain.Holds.mem_of_picks {c : Chain} {ids flight : List EntryId} (holds : c.Holds ids flight)
    {id : EntryId} (picked : c.Picks id) : id ∈ ids := by
  cases picked with
  | named found => exact ((holds.find?_eq_some_iff _ id).mp found).1
  | holding found =>
    have member := List.mem_of_find?_eq_some found
    rwa [holds.forwards_eq] at member
  | first found entry =>
    have links := holds.links
    cases ids with
    | nil =>
      obtain ⟨toTail,_⟩ := (List.isChain_cons_cons.mp links).1
      rw [toTail] at found
      exact absurd (Option.some.inj found).symm entry
    | cons x rest =>
      obtain ⟨toFirst,_⟩ := (List.isChain_cons_cons.mp links).1
      rw [toFirst] at found
      rw [Option.some.inj found]
      exact List.mem_cons_self

namespace Chain

/-- What becomes of a chain leaves slots in flight alone, and each entry as long as its slot is not
freed. The generation of a slot counts how often it is; `before` and `after` tell these numbers. -/
structure Keeps (flight : List EntryId) (c c' : Chain) (before after : EntryId → Nat) : Prop where
  reserved : ∀ id ∈ flight, c'.slot id = c.slot id
  entries : ∀ id, (c.slot id).linked = true → after id = before id →
    (c'.slot id).linked = true ∧ (c'.slot id).name = (c.slot id).name
  generation : ∀ id, id < c.slots.size → (c'.slot id).generation + UInt32.ofNat (before id) =
    (c.slot id).generation + UInt32.ofNat (after id)
  grows : c.slots.size ≤ c'.slots.size
  freed : ∀ id, before id ≤ after id

variable {c c₁ c₂ c₃ c' : Chain} {ids flight : List EntryId} {before between after : EntryId → Nat}

theorem Keeps.refl (flight : List EntryId) (c : Chain) (counts : EntryId → Nat) :
    Keeps flight c c counts counts where
  reserved _ _ := rfl
  entries _ linked _ := ⟨linked,rfl⟩
  generation _ _ := rfl
  grows := Nat.le_refl _
  freed _ := Nat.le_refl _

theorem Keeps.trans (first : Keeps flight c₁ c₂ before between)
    (second : Keeps flight c₂ c₃ between after) : Keeps flight c₁ c₃ before after where
  reserved id member := (second.reserved id member).trans (first.reserved id member)
  entries id linked same := by
    have early := first.freed id
    have late := second.freed id
    obtain ⟨still,name⟩ := first.entries id linked (by omega)
    obtain ⟨last,name'⟩ := second.entries id still (by omega)
    exact ⟨last,name'.trans name⟩
  generation id inside := by
    have early := first.generation id inside
    have late := second.generation id (Nat.lt_of_lt_of_le inside first.grows)
    grind
  grows := Nat.le_trans first.grows second.grows
  freed id := Nat.le_trans (first.freed id) (second.freed id)

theorem Keeps.mono {flight' : List EntryId} (keeps : Keeps flight' c c' before after)
    (fewer : ∀ id ∈ flight, id ∈ flight') : Keeps flight c c' before after :=
  ⟨fun id member => keeps.reserved id (fewer id member),keeps.entries,keeps.generation,keeps.grows,
    keeps.freed⟩

theorem count_eq_of_generation {before after : Nat} (grows : before ≤ after)
    (sparing : after < before + 2 ^ 32) {generation : UInt32}
    (same : generation + UInt32.ofNat before = generation + UInt32.ofNat after) :
    after = before := by
  have counts := congrArg UInt32.toNat ((UInt32.add_right_inj _).mp same)
  simp only [UInt32.toNat_ofNat'] at counts
  omega

/-- A handle that is current afterwards is of the entry that the slot held before. -/
theorem Keeps.same_entry (keeps : Keeps flight c c' before after) {id : EntryId}
    (sparing : after id < before id + 2 ^ 32) (inside : id < c.slots.size)
    (linked : (c.slot id).linked = true) {handle : Handle} (entry : handle.entry = id)
    (generation : handle.generation = (c.slot id).generation)
    (current : c'.isCurrent handle = true) :
    (c'.slot id).linked = true ∧ (c'.slot id).name = (c.slot id).name := by
  simp only [isCurrent,entry,generation,Bool.and_eq_true,beq_iff_eq] at current
  have counted := keeps.generation id inside
  rw [current.1.2] at counted
  -- The slot was freed a multiple of 2^32 times and fewer than 2^32, so never.
  exact keeps.entries id linked (count_eq_of_generation (keeps.freed id) sparing counted)

theorem Holds.allocate_keeps (holds : c.Holds ids flight) (name : String) (filter : FilterId)
    (counts : EntryId → Nat) : Keeps flight c (c.allocate name filter).2 counts counts := by
  obtain ⟨outside,landed,new⟩ := holds.allocate_slot name filter
  have other {x : EntryId} := @allocate_slot_of_ne c name filter x
  refine ⟨?_,?_,?_,size_allocate c name filter,fun _ => Nat.le_refl _⟩
  · intro x member
    exact other fun same => landed (same ▸ member)
  · intro x linked _
    have differs : x ≠ (c.allocate name filter).1 := by
      rintro rfl
      rw [holds.unlinked outside] at linked
      cases linked
    rw [other differs]
    exact ⟨linked,rfl⟩
  · intro x _
    by_cases same : x = (c.allocate name filter).1
    · rw [same,new]
    · rw [other same]

theorem Holds.insert_keeps {id : EntryId} (holds : c.Holds ids (id :: flight)) {name : String}
    {position : Position} (admissible : c.checkAddition name position = .ok ())
    (counts : EntryId → Nat) : Keeps flight c (c.insert id name position) counts counts := by
  have slots := holds.insert_slot admissible
  obtain ⟨_,_,left,right,rfl,_,first,last⟩ := holds.neighbours admissible
  refine ⟨?_,?_,?_,Nat.le_of_eq (size_insert ..).symm,fun _ => Nat.le_refl _⟩
  · intro x member
    have outside := holds.flight_apart (List.mem_cons_of_mem _ member)
    rw [path_cut first last] at outside
    simp only [List.mem_append,List.mem_cons,not_or] at outside
    have differs : x ≠ id := by
      rintro rfl
      exact (List.nodup_cons.mp holds.flight_nodup).1 member
    rw [slots x]
    simp [outside,differs]
  · intro x linked _
    rw [slots x]
    simp [linked]
  · intro x _
    rw [slots x]

def oneMore (counts : EntryId → Nat) (id x : EntryId) : Nat :=
  if x = id then counts x + 1 else counts x

theorem generation_oneMore (generation : UInt32) (n : Nat) :
    generation + 1 + UInt32.ofNat n = generation + UInt32.ofNat (n + 1) := by
  rw [UInt32.ofNat_add]
  grind

theorem Holds.release_keeps {id : EntryId} (holds : c.Holds ids (id :: flight))
    (counts : EntryId → Nat) : Keeps flight c (c.release id) counts (oneMore counts id) := by
  have outside := holds.flight_apart (List.mem_cons_self (a := id))
  refine ⟨?_,?_,?_,Nat.le_of_eq (size_release ..).symm,?_⟩
  · intro x member
    refine release_slot_of_ne ?_
    rintro rfl
    exact (List.nodup_cons.mp holds.flight_nodup).1 member
  · intro x linked _
    have differs : x ≠ id := by
      rintro rfl
      rw [holds.unlinked outside] at linked
      cases linked
    rw [release_slot_of_ne differs]
    exact ⟨linked,rfl⟩
  · intro x inside
    by_cases same : x = id
    · subst same
      rw [release_slot inside,oneMore,if_pos rfl]
      exact generation_oneMore _ _
    · rw [release_slot_of_ne same,oneMore,if_neg same]
  · intro x
    unfold oneMore
    split <;> omega

theorem Holds.drop_keeps {id : EntryId} (holds : c.Holds ids flight) (member : id ∈ ids)
    (name : String) (counts : EntryId → Nat) :
    Keeps flight c (c.drop id name) counts (oneMore counts id) := by
  obtain ⟨first,last,rfl⟩ := List.append_of_mem member
  obtain ⟨left,prev,next,right,_,_,path⟩ := path_around first last id
  have slots := holds.drop_slot path name
  refine ⟨?_,?_,?_,Nat.le_of_eq (size_drop ..).symm,?_⟩
  · intro x flying
    have outside := holds.flight_apart flying
    rw [path] at outside
    simp only [List.mem_append,List.mem_cons,not_or] at outside
    rw [slots x]
    simp [outside]
  · intro x linked same
    have differs : x ≠ id := by
      rintro rfl
      simp [oneMore] at same
    rw [slots x,if_neg differs]
    exact ⟨linked,rfl⟩
  · intro x _
    rw [slots x]
    by_cases same : x = id
    · subst same
      rw [if_pos rfl,oneMore,if_pos rfl]
      exact generation_oneMore _ _
    · rw [if_neg same,oneMore,if_neg same]
  · intro x
    unfold oneMore
    split <;> omega

theorem Holds.setFilter_keeps {id : EntryId} (holds : c.Holds ids flight)
    (linked : (c.slot id).linked = true) (filter : FilterId) (counts : EntryId → Nat) :
    Keeps flight c (c.setFilter id filter) counts counts := by
  have slots := setFilter_slot c id filter
  refine ⟨?_,?_,?_,?_,fun _ => Nat.le_refl _⟩
  · intro x member
    have differs : x ≠ id := by
      rintro rfl
      rw [holds.unlinked (holds.flight_apart member)] at linked
      cases linked
    rw [slots x,if_neg fun both => differs both.1]
  · intro x linked _
    rw [slots x]
    split <;> exact ⟨linked,rfl⟩
  · intro x _
    rw [slots x]
    split <;> rfl
  · rw [Chain.setFilter,size_modify]

end Chain

namespace World

variable {σ : Type}

/-- No slot is freed 2^32 times between the two. -/
def Sparing (w w' : World σ) : Prop :=
  ∀ ref id, w'.store.releases ref id < w.store.releases ref id + 2 ^ 32

/-- Every chain is in order, with these slots in flight. -/
def InOrder (w : World σ) (flight : SessionRef → List EntryId) : Prop :=
  ∀ ref, ∃ ids, (w.store.chain ref).Holds ids (flight ref)

def Keeps (flight : SessionRef → List EntryId) (w w' : World σ) : Prop :=
  ∀ ref, Chain.Keeps (flight ref) (w.store.chain ref) (w'.store.chain ref)
    (w.store.releases ref) (w'.store.releases ref)

variable {w w₁ w₂ w₃ w' : World σ} {flight : SessionRef → List EntryId} {ref : SessionRef}
  {terms : Terms}

theorem Keeps.refl (flight : SessionRef → List EntryId) (w : World σ) : w.Keeps flight w :=
  fun _ => .refl _ _ _

theorem Keeps.trans (first : w₁.Keeps flight w₂) (second : w₂.Keeps flight w₃) :
    w₁.Keeps flight w₃ := fun ref => (first ref).trans (second ref)

def flying (flight : SessionRef → List EntryId) (ref : SessionRef) (id : EntryId) :
    SessionRef → List EntryId := fun r => if r = ref then id :: flight r else flight r

theorem flying_self (flight : SessionRef → List EntryId) (ref : SessionRef) (id : EntryId) :
    flying flight ref id ref = id :: flight ref := if_pos rfl

theorem flying_of_ne (flight : SessionRef → List EntryId) {ref r : SessionRef} (differs : r ≠ ref)
    (id : EntryId) : flying flight ref id r = flight r := if_neg differs

theorem Keeps.landed {id : EntryId} (keeps : w.Keeps (flying flight ref id) w') :
    w.Keeps flight w' := fun r => (keeps r).mono fun x member => by
  unfold flying
  split
  · exact List.mem_cons_of_mem _ member
  · exact member

theorem releases_unlinked (w : World σ) (handle : Handle) :
    (w.record (.unlinked handle)).store.releases handle.owner =
      Chain.oneMore (w.store.releases handle.owner) handle.entry := by
  funext x
  by_cases same : handle.entry = x
  · simp [record,mapStore,Store.releases,Observation.frees,Chain.oneMore,same]
  · simp [record,mapStore,Store.releases,Observation.frees,Chain.oneMore,same,Ne.symm same]

theorem releases_discarded (w : World σ) (handle : Handle) :
    (w.record (.discarded handle)).store.releases handle.owner =
      Chain.oneMore (w.store.releases handle.owner) handle.entry := releases_unlinked w handle

theorem releases_record_of_ne (w : World σ) {handle : Handle} {r : SessionRef}
    (differs : r ≠ handle.owner) :
    (w.record (.unlinked handle)).store.releases r = w.store.releases r ∧
      (w.record (.discarded handle)).store.releases r = w.store.releases r := by
  constructor <;>
  · funext x
    simp [record,mapStore,Store.releases,Observation.frees,differs.symm]

/-- An edit of one chain leaves the others in order and alone. -/
theorem edited (ref : SessionRef) {flight₁ flight₂ : SessionRef → List EntryId} (inOrder : w.InOrder flight₁)
    (elsewhere : ∀ r, r ≠ ref → w'.store.chain r = w.store.chain r ∧
      w'.store.releases r = w.store.releases r ∧ flight₂ r = flight₁ r)
    (here : ∃ ids, (w'.store.chain ref).Holds ids (flight₂ ref))
    (keeps : Chain.Keeps (flight ref) (w.store.chain ref) (w'.store.chain ref)
      (w.store.releases ref) (w'.store.releases ref)) :
    w'.InOrder flight₂ ∧ w.Keeps flight w' := by
  constructor
  · intro r
    by_cases same : r = ref
    · rw [same]
      exact here
    · obtain ⟨chain,_,aloft⟩ := elsewhere r same
      rw [chain,aloft]
      exact inOrder r
  · intro r
    by_cases same : r = ref
    · rw [same]
      exact keeps
    · obtain ⟨chain,releases,_⟩ := elsewhere r same
      rw [chain,releases]
      exact .refl _ _ _

theorem reserve_inOrder (inOrder : w.InOrder flight) (present : ref < w.store.sessions.size)
    (name : String) (filter : FilterId) :
    (w.reserve ref name filter).InOrder
        (flying flight ref ((w.store.chain ref).allocate name filter).1) ∧
      w.Keeps flight (w.reserve ref name filter) := by
  obtain ⟨ids,holds⟩ := inOrder ref
  have here : (w.reserve ref name filter).store.chain ref =
      ((w.store.chain ref).allocate name filter).2 := chain_mapChain present _
  refine edited ref inOrder (fun r differs => ?_) ?_ ?_
  · exact ⟨chain_mapChain_of_ne w differs _,rfl,flying_of_ne flight differs _⟩
  · rw [here,flying_self]
    exact ⟨ids,holds.allocate name filter⟩
  · rw [here]
    exact holds.allocate_keeps name filter _

theorem chain_edit (present : ref < w.store.sessions.size) (change : Chain → Chain)
    (o : Observation) : ((w.mapChain ref change).record o).store.chain ref =
      change (w.store.chain ref) := chain_mapChain present change

theorem chain_edit_of_ne {r : SessionRef} (differs : r ≠ ref) (change : Chain → Chain)
    (o : Observation) : ((w.mapChain ref change).record o).store.chain r = w.store.chain r :=
  chain_mapChain_of_ne w differs change

theorem discardEntry_inOrder (handle : Handle) (owner : handle.owner = ref)
    (inOrder : w.InOrder (flying flight ref handle.entry))
    (present : ref < w.store.sessions.size) :
    (w.discardEntry ref handle).InOrder flight ∧ w.Keeps flight (w.discardEntry ref handle) := by
  subst owner
  obtain ⟨ids,holds⟩ := inOrder handle.owner
  rw [flying_self] at holds
  have here := chain_edit present (·.release handle.entry) (.discarded handle)
  have counts := releases_discarded (w.mapChain handle.owner (·.release handle.entry)) handle
  refine edited handle.owner inOrder (fun r differs => ⟨?_,?_,?_⟩) ⟨ids,?_⟩ ?_
  · exact chain_edit_of_ne differs _ _
  · exact (releases_record_of_ne _ differs).2
  · exact (flying_of_ne flight differs _).symm
  · rw [discardEntry,here]
    exact holds.release
  · rw [discardEntry,here,counts]
    exact holds.release_keeps _

theorem linkEntry_inOrder {handle : Handle} {name : String} {position : Position}
    (inOrder : w.InOrder (flying flight ref handle.entry)) (present : ref < w.store.sessions.size)
    (admissible : (w.store.chain ref).checkAddition name position = .ok ())
    (named : ((w.store.chain ref).slot handle.entry).name = name)
    (filled : ((w.store.chain ref).slot handle.entry).filter.isSome) :
    (w.linkEntry ref handle name position).InOrder flight ∧
      w.Keeps flight (w.linkEntry ref handle name position) := by
  obtain ⟨ids,holds⟩ := inOrder ref
  rw [flying_self] at holds
  have here := chain_edit present (·.insert handle.entry name position) (.linked handle)
  have counts (r : SessionRef) : (w.linkEntry ref handle name position).store.releases r =
      w.store.releases r := rfl
  refine edited ref inOrder (fun r differs => ⟨?_,counts r,?_⟩) ?_ ?_
  · exact chain_edit_of_ne differs _ _
  · exact (flying_of_ne flight differs _).symm
  · obtain ⟨before,after,_,_,linked⟩ := holds.insert admissible named filled
    rw [linkEntry,here]
    exact ⟨_,linked⟩
  · rw [counts,linkEntry,here]
    exact holds.insert_keeps admissible _

theorem linkEntry_slot {handle : Handle} {name : String} {position : Position}
    (inOrder : w.InOrder (flying flight ref handle.entry)) (present : ref < w.store.sessions.size)
    (admissible : (w.store.chain ref).checkAddition name position = .ok ()) :
    (handle.entry ≠ Chain.head ∧ handle.entry ≠ Chain.tail) ∧
      handle.entry < ((w.linkEntry ref handle name position).store.chain ref).slots.size ∧
      (((w.linkEntry ref handle name position).store.chain ref).slot handle.entry).linked = true ∧
      (((w.linkEntry ref handle name position).store.chain ref).slot handle.entry).about =
        ((w.store.chain ref).slot handle.entry).about := by
  obtain ⟨ids,holds⟩ := inOrder ref
  rw [flying_self] at holds
  have outside := holds.flight_apart List.mem_cons_self
  simp only [List.mem_cons,List.mem_append,not_or] at outside
  have here := chain_edit present (·.insert handle.entry name position) (.linked handle)
  rw [linkEntry,here,holds.insert_slot admissible]
  refine ⟨⟨outside.1,outside.2.2.1⟩,?_,by simp,rfl⟩
  rw [Chain.size_insert]
  exact holds.flight_inside List.mem_cons_self

theorem dropEntry_inOrder (handle : Handle) {name : String} (owner : handle.owner = ref)
    (inOrder : w.InOrder flight) (present : ref < w.store.sessions.size)
    (between : handle.entry ≠ Chain.head ∧ handle.entry ≠ Chain.tail)
    (linked : ((w.store.chain ref).slot handle.entry).linked = true)
    (named : ((w.store.chain ref).slot handle.entry).name = name) :
    (w.dropEntry ref handle name).InOrder flight ∧
      w.Keeps flight (w.dropEntry ref handle name) := by
  subst owner
  obtain ⟨ids,holds⟩ := inOrder handle.owner
  have member := holds.mem_of_linked linked between
  have here := chain_edit present (·.drop handle.entry name) (.unlinked handle)
  have counts := releases_unlinked (w.mapChain handle.owner (·.drop handle.entry name)) handle
  refine edited handle.owner inOrder (fun r differs => ⟨?_,?_,rfl⟩) ?_ ?_
  · exact chain_edit_of_ne differs _ _
  · exact (releases_record_of_ne _ differs).1
  · obtain ⟨before,after,_,left⟩ := holds.drop member
    rw [named] at left
    rw [dropEntry,here]
    exact ⟨_,left⟩
  · rw [dropEntry,here,counts]
    exact holds.drop_keeps member _ _

theorem Step.chain (step : Step terms w w') (r : SessionRef) :
    w'.store.chain r = w.store.chain r ∨ ∃ id f, ((w.store.chain r).slot id).linked = true ∧
      w'.store.chain r = (w.store.chain r).setFilter id f := by
  cases step with
  | quiet quiet => exact .inl (quiet.chain_eq r)
  | awaited => exact .inl rfl
  | replaced ref id f linked =>
    by_cases same : r = ref
    · subst same
      by_cases present : r < w.store.sessions.size
      · exact .inr ⟨id,f,linked,chain_mapChain present _⟩
      · exact .inl (chain_mapChain_absent present _ r)
    · exact .inl (chain_mapChain_of_ne w same _)

/-- What a quiet step adds to history: nothing of edits or events, or that one event goes on from an
entry that is there. -/
theorem Quiet.news (quiet : Quiet terms w w') : ∃ news, w'.store.journal = news ++ w.store.journal ∧
    ((∀ o ∈ news, o.still = true) ∨ ∃ handle ref event,
      (w.store.chain handle.owner).isCurrent handle = true ∧
      news = [Effect.passing (w.store.chain handle.owner) handle ref event]) := by
  cases quiet with
  | told o silent =>
    refine ⟨[o],rfl,.inl fun o' member => ?_⟩
    rw [List.mem_singleton.mp member]
    cases o <;> first | rfl | cases silent
  | passed handle ref event current => exact ⟨_,rfl,.inr ⟨handle,ref,event,current,rfl⟩⟩
  | logged logger level text context =>
    refine ⟨_,rfl,.inl fun o member => ?_⟩
    obtain ⟨emission,_,rfl⟩ := List.mem_map.mp (List.mem_reverse.mp member)
    rfl
  | queued handle ref id current last =>
    refine ⟨[_],rfl,.inr ⟨handle,ref,.filterWrite id,current,?_⟩⟩
    rw [Effect.passing_end last]
  | polled ref found => exact ⟨[_,_],rfl,.inl (by simp [Observation.still])⟩
  | closing | emptied => exact ⟨[_],rfl,.inl (by simp [Observation.still])⟩
  | took ref found outcome =>
    obtain ⟨futures,settled⟩ := settle_eq (w.dequeue ref _ _) _ outcome
    rw [settled]
    exact ⟨[_],rfl,.inl (by simp [Observation.still])⟩
  | _ => exact ⟨[],rfl,.inl (by simp)⟩

theorem Step.news (step : Step terms w w') : ∃ news, w'.store.journal = news ++ w.store.journal ∧
    ((∀ o ∈ news, o.still = true) ∨ ∃ handle ref event,
      (w.store.chain handle.owner).isCurrent handle = true ∧
      news = [Effect.passing (w.store.chain handle.owner) handle ref event]) := by
  cases step with
  | quiet quiet => exact quiet.news
  | awaited => exact ⟨[],rfl,.inl (by simp)⟩
  | replaced => exact ⟨[],rfl,.inl (by simp)⟩

theorem passing_frees (c : Chain) (handle : Handle) (r ref : SessionRef) (event : Event)
    (id : EntryId) : (Effect.passing c handle r event).frees ref id = false := by
  unfold Effect.passing
  dsimp only
  split <;> rfl

/-- Such news frees no slot. -/
theorem releases_of_news {news : List Observation}
    (journal : w'.store.journal = news ++ w.store.journal)
    (told : (∀ o ∈ news, o.still = true) ∨ ∃ handle ref event,
      (w.store.chain handle.owner).isCurrent handle = true ∧
      news = [Effect.passing (w.store.chain handle.owner) handle ref event]) :
    w'.store.releases = w.store.releases := by
  funext r id
  have none : ∀ o ∈ news, ¬ o.frees r id = true := by
    rcases told with still | ⟨handle,ref,event,_,rfl⟩
    · intro o member frees
      have quiet := still o member
      cases o <;> first | cases frees | cases quiet
    · intro o member
      rw [List.mem_singleton.mp member,passing_frees]
      exact Bool.false_ne_true
  rw [Store.releases,Store.releases,journal,List.countP_append,List.countP_eq_zero.mpr none,Nat.zero_add]

theorem Step.releases (step : Step terms w w') : w'.store.releases = w.store.releases := by
  obtain ⟨news,journal,told⟩ := step.news
  exact releases_of_news journal told

theorem Step.inOrder (step : Step terms w w') (inOrder : w.InOrder flight) :
    w'.InOrder flight ∧ w.Keeps flight w' := by
  constructor
  · intro r
    obtain ⟨ids,holds⟩ := inOrder r
    rcases step.chain r with same | ⟨id,f,linked,swapped⟩
    · rw [same]
      exact ⟨ids,holds⟩
    · rw [swapped]
      exact ⟨ids,holds.setFilter linked f⟩
  · intro r
    obtain ⟨ids,holds⟩ := inOrder r
    rw [step.releases]
    rcases step.chain r with same | ⟨id,f,linked,swapped⟩
    · rw [same]
      exact .refl _ _ _
    · rw [swapped]
      exact holds.setFilter_keeps linked f _

theorem releases_record_le (w : World σ) (o : Observation) (r : SessionRef) (id : EntryId) :
    w.store.releases r id ≤ (w.record o).store.releases r id := by
  simp only [record,mapStore,Store.releases,List.countP_cons]
  omega

theorem releases_le_dropEntry (w : World σ) (ref : SessionRef) (handle : Handle) (name : String)
    (r : SessionRef) (id : EntryId) :
    w.store.releases r id ≤ (w.dropEntry ref handle name).store.releases r id :=
  releases_record_le _ _ r id

theorem releases_le_discardEntry (w : World σ) (ref : SessionRef) (handle : Handle)
    (r : SessionRef) (id : EntryId) :
    w.store.releases r id ≤ (w.discardEntry ref handle).store.releases r id :=
  releases_record_le _ _ r id

theorem Evolves.releases_le (evolves : Evolves terms w w') (r : SessionRef) (id : EntryId) :
    w.store.releases r id ≤ w'.store.releases r id :=
  evolves.carries (P := fun w w' => w.store.releases r id ≤ w'.store.releases r id)
    (fun _ => Nat.le_refl _) Nat.le_trans (fun step => by rw [step.releases]) (fun _ _ _ => Nat.le_refl _)
    fun w o _ => releases_record_le w o r id

theorem Sparing.within (sparing : w.Sparing w')
    (before : ∀ r id, w.store.releases r id ≤ w₁.store.releases r id)
    (after : ∀ r id, w₂.store.releases r id ≤ w'.store.releases r id) : w₁.Sparing w₂ := by
  intro r id
  have whole := sparing r id
  have start := before r id
  have stop := after r id
  omega

theorem picked_present {id : EntryId} (picked : (w.store.chain ref).Picks id) :
    ref < w.store.sessions.size := by
  refine Decidable.byContradiction fun absent => ?_
  rw [chain_absent absent] at picked
  exact List.not_mem_nil (Chain.empty_holds.mem_of_picks picked)

theorem reserved_slot (inOrder : w.InOrder flight) (present : ref < w.store.sessions.size)
    (name : String) (filter : FilterId) :
    ((w.reserve ref name filter).store.chain ref).slot
        ((w.store.chain ref).reserved ref name filter).entry =
      { name := name, filter := some filter,
        generation := ((w.store.chain ref).reserved ref name filter).generation } := by
  obtain ⟨ids,holds⟩ := inOrder ref
  obtain ⟨_,_,new⟩ := holds.allocate_slot name filter
  have here : (w.reserve ref name filter).store.chain ref =
      ((w.store.chain ref).allocate name filter).2 := chain_mapChain present _
  have told : ((w.store.chain ref).reserved ref name filter).generation =
      (((w.store.chain ref).allocate name filter).2.slot
        ((w.store.chain ref).allocate name filter).1).generation := rfl
  rw [here,told]
  refine new.trans ?_
  rw [new]

/-- A world with the slots of each chain that are in flight. -/
abbrev Stage (σ : Type) := (SessionRef → List EntryId) × World σ

/-- One step, or one edit of one chain. -/
inductive Moves (terms : Terms) : Stage σ → Stage σ → Prop
  | step {flight : SessionRef → List EntryId} {w w' : World σ} (once : Step terms w w') :
      Moves terms (flight,w) (flight,w')
  | reserve {flight : SessionRef → List EntryId} {w : World σ} {ref : SessionRef}
      (present : ref < w.store.sessions.size) (name : String) (filter : FilterId) :
      Moves terms (flight,w)
        (flying flight ref ((w.store.chain ref).allocate name filter).1,w.reserve ref name filter)
  | discard {flight : SessionRef → List EntryId} {w : World σ} {handle : Handle}
      (present : handle.owner < w.store.sessions.size)
      (generation : ((w.store.chain handle.owner).slot handle.entry).generation = handle.generation) :
      Moves terms (flying flight handle.owner handle.entry,w) (flight,w.discardEntry handle.owner handle)
  | link {flight : SessionRef → List EntryId} {w : World σ} {handle : Handle} {name : String}
      {position : Position} (present : handle.owner < w.store.sessions.size)
      (generation : ((w.store.chain handle.owner).slot handle.entry).generation = handle.generation)
      (admissible : (w.store.chain handle.owner).checkAddition name position = .ok ())
      (named : ((w.store.chain handle.owner).slot handle.entry).name = name)
      (filled : ((w.store.chain handle.owner).slot handle.entry).filter.isSome) :
      Moves terms (flying flight handle.owner handle.entry,w)
        (flight,w.linkEntry handle.owner handle name position)
  | drop {flight : SessionRef → List EntryId} {w : World σ} {handle : Handle} {name : String}
      (present : handle.owner < w.store.sessions.size)
      (generation : ((w.store.chain handle.owner).slot handle.entry).generation = handle.generation)
      (between : handle.entry ≠ Chain.head ∧ handle.entry ≠ Chain.tail)
      (linked : ((w.store.chain handle.owner).slot handle.entry).linked = true)
      (named : ((w.store.chain handle.owner).slot handle.entry).name = name) :
      Moves terms (flight,w) (flight,w.dropEntry handle.owner handle name)

abbrev Course (terms : Terms) : Stage σ → Stage σ → Prop :=
  Relation.ReflTransGen (Moves terms)

theorem Moves.inOrder {s s' : Stage σ} (moves : Moves terms s s') (inOrder : s.2.InOrder s.1) :
    s'.2.InOrder s'.1 := by
  cases moves with
  | step once => exact (once.inOrder inOrder).1
  | reserve present name filter => exact (reserve_inOrder inOrder present name filter).1
  | discard present => exact (discardEntry_inOrder _ rfl inOrder present).1
  | link present generation admissible named filled =>
    exact (linkEntry_inOrder inOrder present admissible named filled).1
  | drop present generation between linked named =>
    exact (dropEntry_inOrder _ rfl inOrder present between linked named).1

theorem Course.inOrder {s s' : Stage σ} (course : Course terms s s') (inOrder : s.2.InOrder s.1) :
    s'.2.InOrder s'.1 := by
  induction course with
  | refl => exact inOrder
  | tail _ moves ih => exact moves.inOrder ih

/-- History is only ever added to. -/
theorem Moves.recalls {s s' : Stage σ} (moves : Moves terms s s') :
    s.2.store.journal <:+ s'.2.store.journal := by
  cases moves with
  | step once =>
    obtain ⟨news,journal,_⟩ := once.news
    exact ⟨news,journal.symm⟩
  | reserve => exact List.suffix_refl _
  | discard => exact List.suffix_cons _ _
  | link => exact List.suffix_cons _ _
  | drop => exact List.suffix_cons _ _

theorem Course.recalls {s s' : Stage σ} (course : Course terms s s') :
    s.2.store.journal <:+ s'.2.store.journal := by
  induction course with
  | refl => exact List.suffix_refl _
  | tail _ moves ih => exact ih.trans moves.recalls

theorem releases_le_of_suffix (recalls : w.store.journal <:+ w'.store.journal) (ref : SessionRef)
    (id : EntryId) : w.store.releases ref id ≤ w'.store.releases ref id :=
  recalls.sublist.countP_le

theorem generation_of_current {c : Chain} {handle : Handle} (current : c.isCurrent handle = true) :
    (c.slot handle.entry).generation = handle.generation := by
  simp only [Chain.isCurrent,Bool.and_eq_true,beq_iff_eq] at current
  exact current.1.2

/-- A course that ends with the slots in flight that it began with, and has left these alone. -/
structure Along (terms : Terms) (flight : SessionRef → List EntryId) (w w' : World σ) :
    Prop where
  course : Course terms (flight,w) (flight,w')
  inOrder : w'.InOrder flight
  keeps : w.Keeps flight w'

theorem Along.trans (first : Along terms flight w₁ w₂) (second : Along terms flight w₂ w₃) :
    Along terms flight w₁ w₃ :=
  ⟨first.course.trans second.course,second.inOrder,first.keeps.trans second.keeps⟩

theorem Along.of_move (moves : Moves terms (flight,w) (flight,w'))
    (edited : w'.InOrder flight ∧ w.Keeps flight w') : Along terms flight w w' :=
  ⟨.single moves,edited.1,edited.2⟩

/-- Behind the hook of a new entry its slot is still in flight and as it was taken. -/
theorem hooked_along {name : String} {filter : FilterId} (inOrder : w.InOrder flight)
    (present : ref < w.store.sessions.size)
    (hook : ∀ flight, (w.reserve ref name filter).InOrder flight →
      Along terms flight (w.reserve ref name filter) w₁) :
    Course terms (flight,w)
        (flying flight ref ((w.store.chain ref).reserved ref name filter).entry,w₁) ∧
      w₁.InOrder (flying flight ref ((w.store.chain ref).reserved ref name filter).entry) ∧
      w.Keeps flight w₁ ∧
      (w₁.store.chain ref).slot ((w.store.chain ref).reserved ref name filter).entry =
        { name := name, filter := some filter,
          generation := ((w.store.chain ref).reserved ref name filter).generation } := by
  obtain ⟨taken,kept⟩ := reserve_inOrder inOrder present name filter
  obtain ⟨course,hooked,keeps⟩ := hook _ taken
  refine ⟨.head (.reserve present name filter) course,hooked,kept.trans keeps.landed,?_⟩
  rw [← reserved_slot inOrder present name filter]
  exact (keeps ref).reserved _ (by rw [flying_self]; exact List.mem_cons_self)

/-- Whatever becomes of a world, its chains stay in order and what they hold is kept. -/
theorem Evolves.along (evolves : Evolves terms w w') (flight : SessionRef → List EntryId)
    (sparing : w.Sparing w') (inOrder : w.InOrder flight) : Along terms flight w w' := by
  induction evolves generalizing flight with
  | refl w => exact ⟨.refl,inOrder,.refl flight w⟩
  | trans first second ihFirst ihSecond =>
    have before := ihFirst flight
      (sparing.within (fun _ _ => Nat.le_refl _) second.releases_le) inOrder
    exact before.trans (ihSecond flight
      (sparing.within first.releases_le fun _ _ => Nat.le_refl _) before.inOrder)
  | step once => exact .of_move (.step once) (once.inOrder inOrder)
  | @refused w w' ref name filter present hook ih =>
    have spare := sparing.within (fun _ _ => Nat.le_refl _) (releases_le_discardEntry w' ref _)
    obtain ⟨course,hooked,before,slot⟩ := hooked_along inOrder present fun flight => ih flight spare
    have still := Nat.lt_of_lt_of_le present (by simpa [reserve,mapChain] using hook.sessions_le)
    obtain ⟨final,after⟩ := discardEntry_inOrder ((w.store.chain ref).reserved ref name filter) rfl
      hooked still
    refine ⟨course.tail ?_,final,before.trans after⟩
    exact .discard still (congrArg Slot.generation slot)
  | added present hook admissible ih =>
    have spare := sparing.within (fun _ _ => Nat.le_refl _) fun _ _ => Nat.le_refl _
    -- While the hook runs the slot is in flight, so nothing that happens there touches it.
    obtain ⟨course,hooked,before,slot⟩ := hooked_along inOrder present fun flight => ih flight spare
    have still := Nat.lt_of_lt_of_le present (by simpa [reserve,mapChain] using hook.sessions_le)
    have named := congrArg Slot.name slot
    have filled := (congrArg (·.filter.isSome) slot).trans rfl
    obtain ⟨final,after⟩ := linkEntry_inOrder hooked still admissible named filled
    refine ⟨course.tail ?_,final,before.trans after⟩
    exact .link still (congrArg Slot.generation slot) admissible named filled
  | @rolledBack w w₁ w₂ ref name filter position present hook admissible after current ihHook
      ihAfter =>
    have toEnd := releases_le_dropEntry w₂ ref ((w.store.chain ref).reserved ref name filter) name
    have spareHook := sparing.within (fun _ _ => Nat.le_refl _) fun r x =>
      Nat.le_trans (after.releases_le r x) (toEnd r x)
    have spareAfter := sparing.within hook.releases_le toEnd
    obtain ⟨course,hooked,before,slot⟩ := hooked_along inOrder present fun flight =>
      ihHook flight spareHook
    have still := Nat.lt_of_lt_of_le present (by simpa [reserve,mapChain] using hook.sessions_le)
    have named := congrArg Slot.name slot
    have filled := (congrArg (·.filter.isSome) slot).trans rfl
    obtain ⟨joined,link⟩ := linkEntry_inOrder hooked still admissible named filled
    obtain ⟨onto,middle,told⟩ := ihAfter flight spareAfter joined
    obtain ⟨between,inside,entry,about⟩ := linkEntry_slot hooked still admissible
    rw [slot] at about
    obtain ⟨name',about⟩ := Prod.mk.inj about
    obtain ⟨_,generation⟩ := Prod.mk.inj about
    have onward := Nat.lt_of_lt_of_le still (by simpa [linkEntry,record,mapChain,mapStore] using
      after.sessions_le)
    -- The slot still holds the entry that was linked, since its generation is the same.
    obtain ⟨remains,named'⟩ := (told ref).same_entry (spareAfter ref _) inside entry rfl
      generation.symm current
    obtain ⟨final,drop⟩ := dropEntry_inOrder ((w.store.chain ref).reserved ref name filter) rfl middle
      onward between remains (named'.trans name')
    refine ⟨(course.tail (.link still (congrArg Slot.generation slot) admissible named filled)).trans
      (onto.tail ?_),final,before.trans (link.trans (told.trans drop))⟩
    exact .drop onward (generation_of_current current) between remains (named'.trans name')
  | @removed w w₁ ref id picked hook current ih =>
    have spare := sparing.within (fun _ _ => Nat.le_refl _) (releases_le_dropEntry w₁ ref _ _)
    obtain ⟨course,middle,before⟩ := ih flight spare inOrder
    obtain ⟨ids,holds⟩ := inOrder ref
    have member := holds.mem_of_picks picked
    have path : id ∈ Chain.head :: (ids ++ [Chain.tail]) := by simp [member]
    have between := holds.between member
    obtain ⟨linked,named⟩ := (before ref).same_entry (spare ref id) (holds.inside path)
      ((holds.flags id).mpr (by simp [member])) rfl rfl current
    have still := Nat.lt_of_lt_of_le (picked_present picked) hook.sessions_le
    obtain ⟨final,after⟩ := dropEntry_inOrder ((w.store.chain ref).handle ref id) rfl middle still between
      linked named
    refine ⟨course.tail ?_,final,before.trans after⟩
    exact .drop still (generation_of_current current) between linked named

/-- The same where code has run that does what may become of a world. -/
theorem Evolves.hooked {name : String} {filter : FilterId}
    (hook : (w.reserve ref name filter).Evolves terms w₁) (present : ref < w.store.sessions.size)
    (sparing : w.Sparing w₁) (inOrder : w.InOrder flight) :
    ref < w₁.store.sessions.size ∧
      w₁.InOrder (flying flight ref ((w.store.chain ref).reserved ref name filter).entry) ∧
      (w₁.store.chain ref).slot ((w.store.chain ref).reserved ref name filter).entry =
        { name := name, filter := some filter,
          generation := ((w.store.chain ref).reserved ref name filter).generation } := by
  obtain ⟨_,hooked,_,slot⟩ := hooked_along inOrder present fun flight => hook.along flight sparing
  refine ⟨Nat.lt_of_lt_of_le present ?_,hooked,slot⟩
  simpa [reserve,mapChain] using hook.sessions_le

theorem Midway.releases_le (midway : Midway terms w w') (r : SessionRef) (id : EntryId) :
    w.store.releases r id ≤ w'.store.releases r id := by
  induction midway with
  | ended evolves => exact evolves.releases_le r id
  | adding evolves _ _ ih => exact Nat.le_trans (evolves.releases_le r id) ih

/-- Where a run is stopped its chains are in order, with slots in flight for what it is about to add. -/
theorem Midway.course (midway : Midway terms w w') (flight : SessionRef → List EntryId)
    (sparing : w.Sparing w') (inOrder : w.InOrder flight) :
    ∃ flight', Course terms (flight,w) (flight',w') := by
  induction midway generalizing flight with
  | ended evolves => exact ⟨flight,(evolves.along flight sparing inOrder).course⟩
  | adding evolves present hook ih =>
    have before := evolves.along flight
      (sparing.within (fun _ _ => Nat.le_refl _) hook.releases_le) inOrder
    obtain ⟨taken,_⟩ := reserve_inOrder before.inOrder present _ _
    obtain ⟨flight',onward⟩ := ih _ (sparing.within evolves.releases_le fun _ _ => Nat.le_refl _) taken
    exact ⟨flight',before.course.trans (.head (.reserve present _ _) onward)⟩

end World
end SessionPipeline
