import SessionPipeline.Proofs.Chain.Arena

/-! What an arena in order means for those who look at the chain: both walks end and are each
other's reverse, and everything that a chain tells of a name agrees with the list of its entries. -/
namespace SessionPipeline.Chain

/-- Following `step` from a slot meets these entries and then `stop`. -/
inductive Traverses (c : Chain) (step : Slot → Option EntryId) (stop : EntryId) :
    Option EntryId → List EntryId → Prop
  | stop : Traverses c step stop (some stop) []
  | step {id : EntryId} {ids : List EntryId} (onward : id ≠ stop)
      (rest : Traverses c step stop (step (c.slot id)) ids) :
      Traverses c step stop (some id) (id :: ids)

/-- The chain is consistent: its list of entries can be walked from either end, names and index
agree with it, and each slot is either linked or free, once. -/
structure Consistent (c : Chain) (owner : SessionRef) : Prop where
  forth : c.Traverses (·.next) tail (c.slot head).next c.forwards
  back : c.Traverses (·.prev) head (c.slot tail).prev c.backwards
  reversed : c.getAllReversed owner = (c.getAll owner).reverse
  distinct : ((c.getAll owner).map (·.name)).Nodup
  index : c.index.Perm ((c.getAll owner).map fun e => (e.name,e.handle.entry))
  contains : ∀ name, c.contains name = true ↔ ∃ e ∈ c.getAll owner, e.name = name
  get : ∀ e ∈ c.getAll owner, c.get e.name = .ok e.filter ∧ c.getEntry owner e.name = .ok e
  missing : ∀ name, (∀ e ∈ c.getAll owner, e.name ≠ name) →
    c.get name = .error (.nameNotFound name) ∧ c.getEntry owner name = .error (.nameNotFound name)
  size : c.size = (c.getAll owner).length
  isEmpty : c.isEmpty = (c.getAll owner).isEmpty
  filters : ∀ e ∈ c.getAll owner, e.filter.isSome
  flags : ∀ id, (c.slot id).linked = true ↔ id ∈ head :: tail :: c.forwards
  slots : ∀ id, id < c.slots.size → id ≠ head → id ≠ tail →
    (c.forwards.count id = 1 ∧ c.free.count id = 0) ∨ (c.forwards.count id = 0 ∧ c.free.count id = 1)

variable {c : Chain} {ids flight : List EntryId}

theorem traverses_of_path {step : Slot → Option EntryId} {stop : EntryId} (start : EntryId)
    (path : (start :: (ids ++ [stop])).IsChain fun a b => step (c.slot a) = some b)
    (ends : stop ∉ ids) : c.Traverses step stop (step (c.slot start)) ids := by
  induction ids generalizing start with
  | nil =>
    obtain ⟨first,_⟩ := List.isChain_cons_cons.mp path
    rw [first]
    exact .stop
  | cons id rest ih =>
    obtain ⟨first,later⟩ := List.isChain_cons_cons.mp path
    rw [first]
    rw [List.mem_cons,not_or] at ends
    exact .step (Ne.symm ends.1) (ih id later ends.2)

theorem Traverses.walk_eq {step : Slot → Option EntryId} {stop : EntryId} {start : Option EntryId}
    (traverses : c.Traverses step stop start ids) (fuel : Nat) (enough : ids.length ≤ fuel) :
    c.walk step stop fuel start = ids := by
  induction traverses generalizing fuel with
  | stop => cases fuel <;> simp [walk]
  | step onward rest ih =>
    obtain ⟨n,rfl⟩ : ∃ n, fuel = n + 1 := ⟨fuel - 1,by simp at enough; omega⟩
    rw [walk,if_neg (by simpa using onward),ih n (by simpa using enough)]

theorem Holds.length_le (holds : c.Holds ids flight) : ids.length ≤ c.slots.size := by
  have length := holds.slots.length_eq
  simp only [List.length_cons,List.length_append,List.length_range] at length
  omega

theorem Holds.traverses_forwards (holds : c.Holds ids flight) :
    c.Traverses (·.next) tail (c.slot head).next ids := by
  have apart := holds.path_nodup
  simp only [List.nodup_cons,List.nodup_append] at apart
  exact traverses_of_path head (holds.links.imp fun a b adjacent => adjacent.1) (by grind)

theorem Holds.traverses_backwards (holds : c.Holds ids flight) :
    c.Traverses (·.prev) head (c.slot tail).prev ids.reverse := by
  have apart := holds.path_nodup
  simp only [List.nodup_cons,List.nodup_append] at apart
  have back := List.isChain_reverse.mpr (holds.links.imp fun a b adjacent => adjacent.2)
  simp only [List.reverse_cons,List.reverse_append,List.reverse_nil,List.nil_append,
    List.cons_append] at back
  exact traverses_of_path tail back (by rw [List.mem_reverse]; grind)

theorem Holds.forwards_eq (holds : c.Holds ids flight) : c.forwards = ids :=
  holds.traverses_forwards.walk_eq _ holds.length_le

theorem Holds.backwards_eq (holds : c.Holds ids flight) : c.backwards = ids.reverse :=
  holds.traverses_backwards.walk_eq _ (by rw [List.length_reverse]; exact holds.length_le)

theorem Holds.getAll_eq (holds : c.Holds ids flight) (owner : SessionRef) :
    c.getAll owner = ids.map (c.entry owner) := by
  rw [getAll,holds.forwards_eq]

theorem Holds.mem_getAll (holds : c.Holds ids flight) (owner : SessionRef) (e : Entry) :
    e ∈ c.getAll owner ↔ ∃ id ∈ ids, c.entry owner id = e := by
  rw [holds.getAll_eq,List.mem_map]

theorem Holds.find?_entry (holds : c.Holds ids flight) {id : EntryId} (member : id ∈ ids) :
    c.find? (c.slot id).name = some id :=
  (holds.find?_eq_some_iff _ id).mpr ⟨member,rfl⟩

/-- With no slot in flight a chain in order is consistent. -/
theorem Holds.consistent (holds : c.Holds ids []) (owner : SessionRef) : c.Consistent owner := by
  have forwards := holds.forwards_eq
  have getAll := holds.getAll_eq owner
  have absent {name : String} (missing : ∀ e ∈ c.getAll owner, e.name ≠ name) :
      c.find? name = none := by
    refine (holds.find?_eq_none_iff name).mpr fun id member => ?_
    exact missing (c.entry owner id) ((holds.mem_getAll owner _).mpr ⟨id,member,rfl⟩)
  refine ⟨?forth,?back,?reversed,?distinct,?index,?contains,?get,?missing,?size,?isEmpty,?filters,?flags,?slots⟩
  case forth =>
    rw [forwards]
    exact holds.traverses_forwards
  case back =>
    rw [holds.backwards_eq]
    exact holds.traverses_backwards
  case reversed =>
    rw [getAllReversed,holds.backwards_eq,getAll,List.map_reverse]
  case distinct =>
    rw [getAll,List.map_map]
    exact holds.names
  case index =>
    rw [getAll,List.map_map]
    exact holds.index
  case contains =>
    intro name
    rw [contains,Option.isSome_iff_exists]
    constructor
    · rintro ⟨id,found⟩
      obtain ⟨member,named⟩ := (holds.find?_eq_some_iff name id).mp found
      exact ⟨c.entry owner id,(holds.mem_getAll owner _).mpr ⟨id,member,rfl⟩,named⟩
    · rintro ⟨e,member,rfl⟩
      obtain ⟨id,inside,rfl⟩ := (holds.mem_getAll owner e).mp member
      exact ⟨id,holds.find?_entry inside⟩
  case get =>
    intro e member
    obtain ⟨id,inside,rfl⟩ := (holds.mem_getAll owner e).mp member
    have found : c.find? (c.entry owner id).name = some id := holds.find?_entry inside
    rw [get,getEntry,found]
    exact ⟨rfl,rfl⟩
  case missing =>
    intro name missing
    rw [get,getEntry,absent missing]
    exact ⟨rfl,rfl⟩
  case size =>
    rw [size,holds.index.length_eq,getAll,List.length_map,List.length_map]
  case isEmpty =>
    rw [isEmpty,holds.index.isEmpty_eq,getAll]
    cases ids <;> rfl
  case filters =>
    intro e member
    obtain ⟨id,inside,rfl⟩ := (holds.mem_getAll owner e).mp member
    exact holds.filters id inside
  case flags =>
    rw [forwards]
    exact holds.flags
  case slots =>
    intro id inside notHead notTail
    rw [forwards]
    have member := (holds.mem_iff id).mpr inside
    have apart := (List.nodup_cons.mp (List.nodup_cons.mp holds.nodup).2).2
    have once := List.nodup_iff_count.mp apart id
    simp only [List.mem_cons,notHead,notTail,false_or,List.nil_append] at member
    have some := List.one_le_count_iff.mpr member
    simp only [List.nil_append,List.count_append] at once some
    omega

end SessionPipeline.Chain
