import SessionPipeline.Proofs.Filter.Solitude
import SessionPipeline.Proofs.Wire.Text

/-! The names that logging filters keep. A logging filter keeps one name on each session, so it tells
the names of entries apart only while all entries of a chain that hold it have that one name. Edits of
chains leave it so, if a logging filter comes in under no second name and comes back to no other one. -/
namespace SessionPipeline

theorem Filter.isKind_mapSettings (change : LogSettings → LogSettings) (f : Filter) (kind : FilterKind) :
    (f.mapSettings change).isKind kind = f.isKind kind := by
  cases f <;> cases kind <;> rfl

namespace Chain

variable {c : Chain} {ids flight : List EntryId} {id x : EntryId} {name n : String} {filter f : FilterId}

theorem Seats.mem (seats : c.Seats x n f) (holds : c.Holds ids flight) : x ∈ ids :=
  holds.mem_of_linked seats.linked seats.between

theorem Holds.seats (holds : c.Holds ids flight) (member : id ∈ ids)
    (holding : (c.slot id).filter = some f) : c.Seats id (c.slot id).name f :=
  ⟨holds.between member,(holds.flags id).mpr (by simp [member]),rfl,holding⟩

theorem Seats.unlinked (seats : c.Seats x n f) (unlinked : (c.slot x).linked = false) : False := by
  rw [seats.linked] at unlinked
  cases unlinked

/-- No two entries of a chain have the same name. -/
theorem Seats.same_entry {g : FilterId} (seats : c.Seats x n f) (other : c.Seats id n g)
    (holds : c.Holds ids flight) : x = id := by
  have found := (holds.find?_eq_some_iff n x).mpr ⟨seats.mem holds,seats.named⟩
  rw [(holds.find?_eq_some_iff n id).mpr ⟨other.mem holds,other.named⟩] at found
  exact (Option.some.inj found).symm

theorem Holds.seats_allocate (holds : c.Holds ids flight)
    (seats : (c.allocate name filter).2.Seats x n f) : c.Seats x n f := by
  obtain ⟨_,_,new⟩ := holds.allocate_slot name filter
  have other : x ≠ (c.allocate name filter).1 := by
    rintro rfl
    exact seats.unlinked (by rw [new])
  have slot := allocate_slot_of_ne c other
  exact ⟨seats.between,slot ▸ seats.linked,slot ▸ seats.named,slot ▸ seats.holding⟩

theorem Holds.seats_release (holds : c.Holds ids (id :: flight)) (seats : (c.release id).Seats x n f) :
    c.Seats x n f := by
  have other : x ≠ id := by
    rintro rfl
    exact seats.unlinked (by rw [release_slot (holds.flight_inside List.mem_cons_self)])
  have slot := release_slot_of_ne (c := c) other
  exact ⟨seats.between,slot ▸ seats.linked,slot ▸ seats.named,slot ▸ seats.holding⟩

theorem Holds.seats_insert (holds : c.Holds ids (id :: flight)) {position : Position}
    (admissible : c.checkAddition name position = .ok ())
    (seats : (c.insert id name position).Seats x n f) :
    c.Seats x n f ∨ x = id ∧ (c.slot id).name = n ∧ (c.slot id).filter = some f := by
  obtain ⟨between,linked,named,holding⟩ := seats
  have slot := holds.insert_slot admissible x
  rw [slot] at linked named holding
  by_cases new : x = id
  · subst new
    exact .inr ⟨rfl,named,holding⟩
  · exact .inl ⟨between,by simpa [new] using linked,named,holding⟩

theorem Holds.seats_drop (holds : c.Holds ids flight) (member : id ∈ ids)
    (seats : (c.drop id name).Seats x n f) : x ≠ id ∧ c.Seats x n f := by
  obtain ⟨first,last,rfl⟩ := List.append_of_mem member
  obtain ⟨left,prev,next,right,_,_,path⟩ := path_around first last id
  have slot := holds.drop_slot path name x
  have other : x ≠ id := by
    rintro rfl
    exact seats.unlinked (by rw [slot,if_pos rfl])
  rw [if_neg other] at slot
  obtain ⟨between,linked,named,holding⟩ := seats
  rw [slot] at linked named holding
  exact ⟨other,between,linked,named,holding⟩

theorem Holds.seats_setFilter (holds : c.Holds ids flight) (member : id ∈ ids)
    (seats : (c.setFilter id filter).Seats x n f) :
    c.Seats x n f ∨ x = id ∧ (c.slot id).name = n ∧ f = filter := by
  obtain ⟨between,linked,named,holding⟩ := seats
  rw [setFilter_slot] at linked named holding
  by_cases here : x = id
  · subst here
    have inside := holds.inside (List.mem_cons_of_mem _ (List.mem_append_left _ member))
    rw [if_pos ⟨rfl,inside⟩] at named holding
    exact .inr ⟨rfl,named,(Option.some.inj holding).symm⟩
  · rw [if_neg fun both => here both.1] at linked named holding
    exact .inl ⟨between,linked,named,holding⟩

end Chain

namespace World

variable {σ : Type} {w w₁ w₂ w₃ w' v : World σ} {ref r : SessionRef} {name n : String}
  {filter f g : FilterId} {position : Position} {flight : SessionRef → List EntryId} {id : EntryId}
  {terms : Terms}

/-- Filters that there are stay of the kind they are. -/
theorem Quiet.kind (quiet : Quiet terms w w') (kind : FilterKind) (known : f < w.store.filters.size) :
    f < w'.store.filters.size ∧ (w'.store.filter f).isKind kind = (w.store.filter f).isKind kind := by
  cases quiet with
  | filter new =>
    refine ⟨by simpa [mapStore] using Nat.lt_succ_of_lt known,?_⟩
    simp [mapStore,Store.filter,Array.getElem?_push,Nat.ne_of_lt known]
  | settings id change =>
    refine ⟨by simpa [mapStore] using known,?_⟩
    simp only [mapStore,Store.filter,Array.getD_eq_getD_getElem?,Array.getElem?_modify]
    split
    · rw [Array.getElem?_eq_getElem known]
      exact Filter.isKind_mapSettings change _ kind
    · rfl
  | took ref found outcome =>
    obtain ⟨futures,settled⟩ := settle_eq (w.dequeue ref _ _) _ outcome
    rw [settled]
    exact ⟨known,rfl⟩
  | _ => exact ⟨known,rfl⟩

theorem Midway.kind (midway : w.Midway terms w') (kind : FilterKind) (known : f < w.store.filters.size) :
    f < w'.store.filters.size ∧ (w'.store.filter f).isKind kind = (w.store.filter f).isKind kind := by
  refine midway.carries (P := fun w w' => f < w.store.filters.size →
    f < w'.store.filters.size ∧ (w'.store.filter f).isKind kind = (w.store.filter f).isKind kind)
    (fun _ inside => ⟨inside,rfl⟩) (fun before after inside => ?_) (fun step inside => ?_)
    (fun _ _ _ inside => ⟨inside,rfl⟩) (fun _ _ _ inside => ⟨inside,rfl⟩) known
  · obtain ⟨between,same⟩ := before inside
    exact ⟨(after between).1,(after between).2.trans same⟩
  · cases step with
    | quiet quiet => exact quiet.kind kind inside
    | awaited => exact ⟨inside,rfl⟩
    | replaced => exact ⟨inside,rfl⟩

/-- The filter is there, and keeps this name on the session if it is a logging one. -/
structure Titled (w : World σ) (ref : SessionRef) (name : String) (f : FilterId) : Prop where
  known : f < w.store.filters.size
  signed : (w.store.filter f).isKind .logging = true →
    (w.store.session ref).attribute? (.entryName f) = some (.ofString name)

/-- What an entry holds keeps the name of the entry. -/
def Apt (w : World σ) : Prop := ∀ r id n f, (w.store.chain r).Seats id n f → w.Titled r n f

theorem Titled.stays (titled : w.Titled r n f) (same : w.SameNames w')
    (kind : f < w'.store.filters.size ∧
      (w'.store.filter f).isKind .logging = (w.store.filter f).isKind .logging) : w'.Titled r n f :=
  ⟨kind.1,fun logs => (same r f).trans (titled.signed (kind.2.symm.trans logs))⟩

/-- Where no filter changes. -/
theorem Titled.within (titled : w.Titled r n f) (same : w.SameNames w')
    (filters : w'.store.filters = w.store.filters) : w'.Titled r n f := by
  have found : w'.store.filter f = w.store.filter f := by rw [Store.filter,filters]; rfl
  exact titled.stays same ⟨filters ▸ titled.known,by rw [found]⟩

theorem Titled.mapSession {change : Session → Session} (titled : w.Titled r n f)
    (keeps : r = ref → ∀ s, (change s).attribute? (.entryName f) = s.attribute? (.entryName f)) :
    (w.mapSession ref change).Titled r n f := by
  refine ⟨titled.known,fun logs => ?_⟩
  by_cases here : r = ref
  · exact (session_mapSession_eq (·.attribute? (.entryName f)) (keeps here) w ref r).trans
      (titled.signed logs)
  · rw [session_mapSession_of_ne w here]
    exact titled.signed logs

/-- Two entries of a chain with the same logging filter have the same name. -/
theorem Titled.same_name (titled : w.Titled r n f) (other : w.Titled r name f)
    (logs : (w.store.filter f).isKind .logging = true) : n = name := by
  have same := (titled.signed logs).symm.trans (other.signed logs)
  exact Bytes.ofString_injective (Message.text.inj (Option.some.inj same))

theorem Apt.quiet (apt : w.Apt) (quiet : Quiet terms w w') (same : w.SameNames w') : w'.Apt := by
  intro r id n f seats
  rw [quiet.chain_eq] at seats
  have titled := apt r id n f seats
  exact titled.stays same (quiet.kind .logging titled.known)

section Edited

variable (apt : w.Apt) (change : Chain → Chain) (present : ref < w.store.sessions.size)
  (sessions : v.store.sessions = (w.mapChain ref change).store.sessions)
  (filters : v.store.filters = w.store.filters)
include sessions

theorem chain_of_edited (r : SessionRef) : v.store.chain r = (w.mapChain ref change).store.chain r := by
  rw [Store.chain,Store.session,sessions]
  rfl

theorem sameNames_of_edited : w.SameNames v := by
  intro r f
  have found : v.store.session r = (w.mapChain ref change).store.session r := by
    rw [Store.session,sessions]
    rfl
  rw [found]
  exact sameNames_mapSession w ref (fun s => { s with chain := change s.chain }) (fun _ _ => rfl) r f

include apt present filters

/-- An edit leaves what keeps the names of entries, if it brings in nothing else. -/
theorem Apt.edited (seats : ∀ x n f, (change (w.store.chain ref)).Seats x n f →
    (w.store.chain ref).Seats x n f ∨ w.Titled ref n f) : v.Apt := by
  intro r x n f seated
  refine Titled.within ?_ (sameNames_of_edited change sessions) filters
  rw [chain_of_edited change sessions] at seated
  by_cases here : r = ref
  · subst here
    rw [chain_mapChain present] at seated
    exact (seats x n f seated).elim (apt r x n f) id
  · rw [chain_mapChain_of_ne w here] at seated
    exact apt r x n f seated

/-- It may bring in a filter that signs the name, if the filter is held under that name only. -/
theorem Apt.signed (known : f < w.store.filters.size)
    (seats : ∀ x n g, (change (w.store.chain ref)).Seats x n g →
      (w.store.chain ref).Seats x n g ∨ n = name ∧ g = f)
    (named : ∀ x n, (w.store.chain ref).Seats x n f → n = name) :
    (v.mapSession ref (·.setAttribute (.entryName f) (.ofString name))).Apt := by
  have there : ref < v.store.sessions.size := by
    rw [sessions]
    exact Nat.lt_of_lt_of_eq present (sessions_mapSession w ref _).symm
  intro r x n g seated
  rw [chain_mapSession fun s => show (s.setAttribute _ _).chain = s.chain from rfl,
    chain_of_edited change sessions] at seated
  by_cases here : r = ref ∧ g = f
  · obtain ⟨rfl,rfl⟩ := here
    rw [chain_mapChain present] at seated
    obtain rfl := (seats x n g seated).elim (named x n) And.left
    refine ⟨filters ▸ known,fun _ => ?_⟩
    rw [session_mapSession there]
    exact Session.attribute?_setAttribute _ _ _
  · have titled : w.Titled r n g := by
      by_cases at' : r = ref
      · subst at'
        rw [chain_mapChain present] at seated
        exact apt r x n g ((seats x n g seated).resolve_right fun new => here ⟨rfl,new.2⟩)
      · rw [chain_mapChain_of_ne w at'] at seated
        exact apt r x n g seated
    refine (titled.within (sameNames_of_edited change sessions) filters).mapSession fun at' s => ?_
    exact s.attribute?_setAttribute_of_ne (fun same => here ⟨at',AttributeKey.entryName.inj same⟩) _

end Edited

/-- A name may be erased that nothing in the chain has any use for. -/
theorem Apt.erased (apt : w.Apt) (gone : ∀ x n, ¬ (w.store.chain ref).Seats x n f) :
    (w.mapSession ref (·.removeAttribute (.entryName f))).Apt := by
  intro r x n g seats
  rw [chain_mapSession fun s => show (s.removeAttribute _).chain = s.chain from rfl] at seats
  refine (apt r x n g seats).mapSession fun at' s => ?_
  refine s.attribute?_removeAttribute_of_ne fun same => ?_
  obtain rfl := AttributeKey.entryName.inj same
  exact gone x n (at' ▸ seats)

/-- What becomes of a world, in which what an entry holds keeps the name of the entry if that was so
before, whatever slots are in flight. -/
structure Names (w w' : World σ) : Prop where
  evolves : w.Evolves .free w'
  apt : w.Sparing w' → ∀ flight, w.InOrder flight → w.Apt → w'.Apt

theorem Names.refl (w : World σ) : w.Names w := ⟨.refl w,fun _ _ _ apt => apt⟩

theorem Names.trans (first : w₁.Names w₂) (second : w₂.Names w₃) : w₁.Names w₃ where
  evolves := first.evolves.trans second.evolves
  apt sparing flight inOrder apt := by
    have early := sparing.within (fun _ _ => Nat.le_refl _) second.evolves.releases_le
    have late := sparing.within first.evolves.releases_le fun _ _ => Nat.le_refl _
    exact second.apt late flight (first.evolves.along flight early inOrder).inOrder
      (first.apt early flight inOrder apt)

theorem Names.quiet (quiet : Quiet .free w w') (same : w.SameNames w') : w.Names w' :=
  ⟨.step (.quiet quiet),fun _ _ _ apt => apt.quiet quiet same⟩

theorem Apt.reserve {ids : List EntryId} (apt : w.Apt) (present : ref < w.store.sessions.size)
    (holds : (w.store.chain ref).Holds ids (flight ref)) : (w.reserve ref name filter).Apt :=
  apt.edited _ present rfl rfl fun _ _ _ seats => .inl (holds.seats_allocate seats)

/-- Behind the hook of a new entry its slot is still in flight, and what was held keeps its names. -/
theorem Names.hooked (hook : (w.reserve ref name filter).Names w₁)
    (present : ref < w.store.sessions.size) (sparing : w.Sparing w₁) (inOrder : w.InOrder flight)
    (apt : w.Apt) :
    ref < w₁.store.sessions.size ∧
      w₁.InOrder (flying flight ref ((w.store.chain ref).reserved ref name filter).entry) ∧
      (w₁.store.chain ref).slot ((w.store.chain ref).reserved ref name filter).entry =
        { name := name, filter := some filter,
          generation := ((w.store.chain ref).reserved ref name filter).generation } ∧
      w₁.Apt := by
  obtain ⟨ids,holds⟩ := inOrder ref
  obtain ⟨taken,_⟩ := reserve_inOrder inOrder present name filter
  obtain ⟨still,hooked,slot⟩ := hook.evolves.hooked present sparing inOrder
  exact ⟨still,hooked,slot,hook.apt sparing _ taken (apt.reserve present holds)⟩

theorem Names.refused (present : ref < w.store.sessions.size)
    (hook : (w.reserve ref name filter).Names w₁) :
    w.Names (w₁.discardEntry ref ((w.store.chain ref).reserved ref name filter)) where
  evolves := .refused present hook.evolves
  apt sparing flight inOrder apt := by
    have early := sparing.within (fun _ _ => Nat.le_refl _) (releases_le_discardEntry w₁ ref _)
    obtain ⟨present,taken,_,apt⟩ := hook.hooked present early inOrder apt
    obtain ⟨ids,holds⟩ := taken ref
    rw [flying_self] at holds
    exact apt.edited (·.release _) present rfl rfl fun _ _ _ seats => .inl (holds.seats_release seats)

/-- A new entry may be linked behind its hook: its place is free, and no entry holds a logging filter
under another name that it is to hold. -/
structure Enters (w w₁ : World σ) (ref : SessionRef) (name : String) (filter : FilterId)
    (position : Position) : Prop where
  present : ref < w.store.sessions.size
  hook : (w.reserve ref name filter).Names w₁
  admissible : (w₁.store.chain ref).checkAddition name position = .ok ()
  known : filter < w₁.store.filters.size
  named : (w₁.store.filter filter).isKind .logging = true → ∀ flight, w.InOrder flight →
    ∀ x n, (w₁.store.chain ref).Seats x n filter → n = name

theorem Enters.linked (enters : w.Enters w₁ ref name filter position)
    (plain : (w₁.store.filter filter).isKind .logging = false) :
    w.Names (w₁.linkEntry ref ((w.store.chain ref).reserved ref name filter) name position) where
  evolves := .added enters.present enters.hook.evolves enters.admissible
  apt sparing flight inOrder apt := by
    have early := sparing.within (fun _ _ => Nat.le_refl _) fun _ _ => Nat.le_refl _
    obtain ⟨present,taken,slot,apt⟩ := enters.hook.hooked enters.present early inOrder apt
    obtain ⟨ids,holds⟩ := taken ref
    rw [flying_self] at holds
    refine apt.edited (·.insert _ name position) present rfl rfl fun x n f seats => ?_
    refine (holds.seats_insert enters.admissible seats).imp_right ?_
    rintro ⟨_,_,holding⟩
    rw [slot] at holding
    obtain rfl := Option.some.inj holding
    exact ⟨enters.known,fun logs => absurd (plain.symm.trans logs) Bool.false_ne_true⟩

/-- A logging filter signs the name of its new entry. -/
theorem Enters.signed (enters : w.Enters w₁ ref name filter position)
    (logs : (w₁.store.filter filter).isKind .logging = true)
    (onward : (w₁.linkEntry ref ((w.store.chain ref).reserved ref name filter) name position).Evolves
      .free v)
    (sessions : v.store.sessions =
      (w₁.linkEntry ref ((w.store.chain ref).reserved ref name filter) name position).store.sessions)
    (filters : v.store.filters = w₁.store.filters) :
    w.Names (v.mapSession ref (·.setAttribute (.entryName filter) (.ofString name))) where
  evolves := by
    refine (Evolves.added enters.present enters.hook.evolves enters.admissible).trans (onward.trans ?_)
    exact .step (.quiet (.attributed v ref _ _ fun _ _ => nofun))
  apt sparing flight inOrder apt := by
    have early := sparing.within (fun _ _ => Nat.le_refl _) onward.releases_le
    obtain ⟨present,taken,slot,apt⟩ := enters.hook.hooked enters.present early inOrder apt
    obtain ⟨ids,holds⟩ := taken ref
    rw [flying_self] at holds
    refine apt.signed (·.insert _ name position) present sessions filters enters.known (fun x n g seats => ?_)
      (enters.named logs flight inOrder)
    refine (holds.seats_insert enters.admissible seats).imp_right ?_
    rintro ⟨_,named,holding⟩
    rw [slot] at named holding
    exact ⟨named.symm,(Option.some.inj holding).symm⟩

theorem Apt.dropped {handle : Handle} {ids : List EntryId} (apt : w.Apt)
    (present : ref < w.store.sessions.size) (holds : (w.store.chain ref).Holds ids (flight ref))
    (member : handle.entry ∈ ids) (name : String) : (w.dropEntry ref handle name).Apt :=
  apt.edited (·.drop handle.entry name) present rfl rfl fun _ _ _ seats =>
    .inl (holds.seats_drop member seats).2

theorem Names.rolledBack (enters : w.Enters w₁ ref name filter position)
    (plain : (w₁.store.filter filter).isKind .logging = false)
    (after : (w₁.linkEntry ref ((w.store.chain ref).reserved ref name filter) name position).Names w₂)
    (current : (w₂.store.chain ref).isCurrent ((w.store.chain ref).reserved ref name filter) = true) :
    w.Names (w₂.dropEntry ref ((w.store.chain ref).reserved ref name filter) name) where
  evolves := .rolledBack enters.present enters.hook.evolves enters.admissible after.evolves current
  apt sparing flight inOrder apt := by
    have toEnd := releases_le_dropEntry w₂ ref ((w.store.chain ref).reserved ref name filter) name
    have early := sparing.within (fun _ _ => Nat.le_refl _) fun r x =>
      Nat.le_trans (after.evolves.releases_le r x) (toEnd r x)
    have before := enters.hook.hooked enters.present early inOrder apt
    have between := (linkEntry_slot before.2.1 before.1 enters.admissible).1
    have whole := (enters.linked plain).trans after
    have spare := sparing.within (fun _ _ => Nat.le_refl _) toEnd
    obtain ⟨ids,holds⟩ := (whole.evolves.along flight spare inOrder).inOrder ref
    refine (whole.apt spare flight inOrder apt).dropped ?_ holds ?_ name
    · exact Nat.lt_of_lt_of_le enters.present whole.evolves.sessions_le
    · exact holds.mem_of_linked (Effect.linked_of_current current) between

theorem Names.removed (picked : (w.store.chain ref).Picks id) (hook : w.Names w₁)
    (current : (w₁.store.chain ref).isCurrent ((w.store.chain ref).handle ref id) = true) :
    w.Names (w₁.dropEntry ref ((w.store.chain ref).handle ref id) ((w.store.chain ref).slot id).name)
    where
  evolves := .removed picked hook.evolves current
  apt sparing flight inOrder apt := by
    have spare := sparing.within (fun _ _ => Nat.le_refl _) (releases_le_dropEntry w₁ ref _ _)
    obtain ⟨ids,holds⟩ := inOrder ref
    have between := holds.between (holds.mem_of_picks picked)
    obtain ⟨ids,holds⟩ := (hook.evolves.along flight spare inOrder).inOrder ref
    refine (hook.apt spare flight inOrder apt).dropped ?_ holds ?_ _
    · exact Nat.lt_of_lt_of_le (picked_present picked) hook.evolves.sessions_le
    · exact holds.mem_of_linked (Effect.linked_of_current current) between

/-- A logging filter takes with it the name of its entry, which no other entry has. -/
theorem Names.left (picked : (w.store.chain ref).Picks id)
    (holding : ((w.store.chain ref).slot id).filter = some f)
    (logs : (w.store.filter f).isKind .logging = true) (onward : w.Evolves .free v)
    (sessions : v.store.sessions =
      (w.mapChain ref (·.drop id ((w.store.chain ref).slot id).name)).store.sessions)
    (filters : v.store.filters = w.store.filters) :
    w.Names (v.mapSession ref (·.removeAttribute (.entryName f))) where
  evolves := onward.trans (.step (.quiet (.unattributed v ref _)))
  apt _ flight inOrder apt := by
    have present := picked_present picked
    obtain ⟨ids,holds⟩ := inOrder ref
    have member := holds.mem_of_picks picked
    have seated := holds.seats member holding
    have left : v.Apt := apt.edited _ present sessions filters fun _ _ _ seats =>
      .inl (holds.seats_drop member seats).2
    refine left.erased fun x n seats => ?_
    rw [chain_of_edited _ sessions,chain_mapChain present] at seats
    obtain ⟨other,seats⟩ := holds.seats_drop member seats
    obtain rfl := (apt ref x n f seats).same_name (apt ref id _ f seated) logs
    exact other (seats.same_entry seated holds)

section Exchange

variable (present : ref < w.store.sessions.size) (between : id ≠ Chain.head ∧ id ≠ Chain.tail)
  (linked : ((w.store.chain ref).slot id).linked = true)
include present between linked

theorem Names.replaced (known : filter < w.store.filters.size)
    (plain : (w.store.filter filter).isKind .logging = false) :
    w.Names (w.mapChain ref (·.setFilter id filter)) where
  evolves := .step (.replaced w ref id filter linked)
  apt _ flight inOrder apt := by
    obtain ⟨ids,holds⟩ := inOrder ref
    have member := holds.mem_of_linked linked between
    refine apt.edited _ present rfl rfl fun x n f seats => ?_
    refine (holds.seats_setFilter member seats).imp_right ?_
    rintro ⟨_,_,rfl⟩
    exact ⟨known,fun logs => absurd (plain.symm.trans logs) Bool.false_ne_true⟩

/-- A logging filter signs the name of the entry in which it takes the place of another. -/
theorem Names.exchanged (known : filter < w.store.filters.size)
    (here : ((w.store.chain ref).slot id).name = name)
    (named : ∀ flight, w.InOrder flight → ∀ x n, (w.store.chain ref).Seats x n filter → n = name)
    (onward : w.Evolves .free v)
    (sessions : v.store.sessions = (w.mapChain ref (·.setFilter id filter)).store.sessions)
    (filters : v.store.filters = w.store.filters) :
    w.Names (v.mapSession ref (·.setAttribute (.entryName filter) (.ofString name))) where
  evolves := onward.trans (.step (.quiet (.attributed v ref _ _ fun _ _ => nofun)))
  apt _ flight inOrder apt := by
    obtain ⟨ids,holds⟩ := inOrder ref
    have member := holds.mem_of_linked linked between
    refine apt.signed _ present sessions filters known (fun x n g seats => ?_) (named flight inOrder)
    refine (holds.seats_setFilter member seats).imp_right ?_
    rintro ⟨_,at',same⟩
    exact ⟨at'.symm.trans here,same⟩

/-- The filter that an entry held comes back, and still keeps its name if it is a logging one. -/
theorem Names.undone {old : FilterId} (holding : ((w.store.chain ref).slot id).filter = some old)
    (since : w.Names w') (still : ((w'.store.chain ref).slot id).linked = true)
    (signed : (w'.store.filter old).isKind .logging = true →
      (w'.store.session ref).attribute? (.entryName old) =
        some (.ofString ((w'.store.chain ref).slot id).name)) :
    w.Names (w'.mapChain ref (·.setFilter id old)) where
  evolves := since.evolves.trans (.step (.replaced w' ref id old still))
  apt sparing flight inOrder apt := by
    have known := (apt ref id _ old ⟨between,linked,rfl,holding⟩).known
    have inside := (Midway.kind (.ended since.evolves) .logging known).1
    obtain ⟨ids,holds⟩ := (since.evolves.along flight sparing inOrder).inOrder ref
    have member := holds.mem_of_linked still between
    refine (since.apt sparing flight inOrder apt).edited _
      (Nat.lt_of_lt_of_le present since.evolves.sessions_le) rfl rfl fun x n f seats => ?_
    refine (holds.seats_setFilter member seats).imp_right ?_
    rintro ⟨_,rfl,rfl⟩
    exact ⟨inside,signed⟩

end Exchange

/-- The same for a run that is stopped, perhaps in hooks of entries that are about to be added. -/
structure Halts (w w' : World σ) : Prop where
  midway : w.Midway .free w'
  apt : w.Sparing w' → ∀ flight, w.InOrder flight → w.Apt → w'.Apt

theorem Names.halts (names : w.Names w') : w.Halts w' := ⟨.ended names.evolves,names.apt⟩

theorem Halts.after (halts : w₂.Halts w₃) (before : w₁.Names w₂) : w₁.Halts w₃ where
  midway := halts.midway.after before.evolves
  apt sparing flight inOrder apt := by
    have early := sparing.within (fun _ _ => Nat.le_refl _) halts.midway.releases_le
    have late := sparing.within before.evolves.releases_le fun _ _ => Nat.le_refl _
    exact halts.apt late flight (before.evolves.along flight early inOrder).inOrder
      (before.apt early flight inOrder apt)

theorem Halts.adding (halts : (w.reserve ref name filter).Halts w')
    (present : ref < w.store.sessions.size) : w.Halts w' where
  midway := .adding (.refl w) present halts.midway
  apt sparing flight inOrder apt := by
    obtain ⟨ids,holds⟩ := inOrder ref
    obtain ⟨taken,_⟩ := reserve_inOrder inOrder present name filter
    exact halts.apt sparing _ taken (apt.reserve present holds)

end World
end SessionPipeline
