import SessionPipeline.Proofs.Chain.Change

/-! Chains that differ in how often slots have been freed. What is done to both alike keeps them
like that, and they tell the same of all but the generations of those slots. An addition that is
undone, before its entry is linked or after, leaves just such a difference behind. -/
namespace SessionPipeline

/-- The same handle where the slots of this session's chain have been freed that many times more. -/
def Handle.worn (h : Handle) (ref : SessionRef) (wear : EntryId → UInt32) : Handle :=
  if h.owner = ref then { h with generation := h.generation + wear h.entry } else h

def Entry.moved (e : Entry) (move : Handle → Handle) : Entry := { e with handle := move e.handle }

@[simp] theorem Handle.worn_owner (h : Handle) (ref : SessionRef) (wear : EntryId → UInt32) :
    (h.worn ref wear).owner = h.owner := by
  unfold worn
  split <;> rfl

@[simp] theorem Handle.worn_entry (h : Handle) (ref : SessionRef) (wear : EntryId → UInt32) :
    (h.worn ref wear).entry = h.entry := by
  unfold worn
  split <;> rfl

namespace Chain

/-- One slot is freed once. -/
def once (id : EntryId) : EntryId → UInt32 := fun x => if x = id then 1 else 0

/-- The same chain but that slots have been freed that many times more, one perhaps made for that. -/
structure Worn (wear : EntryId → UInt32) (c c' : Chain) : Prop where
  slot : ∀ x, c'.slot x = { c.slot x with generation := (c.slot x).generation + wear x }
  index : c'.index = c.index
  arena : (c'.slots.size = c.slots.size ∧ c'.free = c.free) ∨
    (c'.slots.size = c.slots.size + 1 ∧ c'.free = c.free ++ [c.slots.size])
  ends : wear head = 0 ∧ wear tail = 0

/-- The second chain tells of itself what the first does, if handles are taken for others. -/
structure Tells (ref : SessionRef) (move : Handle → Handle) (c c' : Chain) : Prop where
  getAll : c'.getAll ref = (c.getAll ref).map (·.moved move)
  getAllReversed : c'.getAllReversed ref = (c.getAllReversed ref).map (·.moved move)
  contains : ∀ name, c'.contains name = c.contains name
  containsFilter : ∀ filter, c'.containsFilter filter = c.containsFilter filter
  findFilter : ∀ test, c'.findFilter? test = c.findFilter? test
  get : ∀ name, c'.get name = c.get name
  getEntry : ∀ name, c'.getEntry ref name = (c.getEntry ref name).map (·.moved move)
  size : c'.size = c.size
  toString : ∀ label, c'.toString label = c.toString label
  isCurrent : ∀ h : Handle, h.owner = ref → c'.isCurrent (move h) = c.isCurrent h
  following : ∀ h, c.isCurrent h = true → ∀ outbound,
    c'.following outbound h.entry = c.following outbound h.entry

variable {x : EntryId} {wear : EntryId → UInt32} {c c' : Chain} {ids flight : List EntryId}
  {ref : SessionRef}

theorem ext_slots (size : c'.slots.size = c.slots.size) (slot : ∀ x, c'.slot x = c.slot x)
    (free : c'.free = c.free) (index : c'.index = c.index) : c' = c := by
  have slots : c'.slots = c.slots := by
    refine Array.ext size fun i inside inside' => ?_
    have same := slot i
    simpa [Chain.slot,inside,inside'] using same
  cases c
  cases c'
  simp_all

/-- What is admissible is told by names alone. -/
theorem checkAddition_congr (index : c'.index = c.index) (name : String) (position : Position) :
    c'.checkAddition name position = c.checkAddition name position := by
  have contains (name : String) : c'.contains name = c.contains name := by
    rw [contains,Chain.find?,index,contains,Chain.find?]
  unfold checkAddition checkBase
  simp only [contains]

theorem slot_push (c : Chain) (s : Slot) (y : EntryId) :
    ({ c with slots := c.slots.push s } : Chain).slot y = if y = c.slots.size then s else c.slot y := by
  simp only [Chain.slot,Array.getD_eq_getD_getElem?,Array.getElem?_push]
  split <;> rfl

namespace Worn

theorem refl (c : Chain) : c.Worn (fun _ => 0) c where
  slot x := by rw [UInt32.add_zero]
  index := rfl
  arena := .inl ⟨rfl,rfl⟩
  ends := ⟨rfl,rfl⟩

theorem size_le (worn : c.Worn wear c') : c.slots.size ≤ c'.slots.size := by
  rcases worn.arena with ⟨size,_⟩ | ⟨size,_⟩ <;> omega

/-- A slot that is not there yet has never been freed. -/
theorem fresh (worn : c.Worn wear c') (outside : c'.slots.size ≤ x) : wear x = 0 := by
  have generation := congrArg Slot.generation (worn.slot x)
  rw [slot_outside outside,slot_outside (Nat.le_trans worn.size_le outside)] at generation
  simpa using generation.symm

theorem find? (worn : c.Worn wear c') (name : String) : c'.find? name = c.find? name := by
  rw [Chain.find?,worn.index,Chain.find?]

theorem contains (worn : c.Worn wear c') (name : String) : c'.contains name = c.contains name := by
  rw [Chain.contains,worn.find?,Chain.contains]

theorem isEmpty (worn : c.Worn wear c') : c'.isEmpty = c.isEmpty := by
  rw [Chain.isEmpty,worn.index,Chain.isEmpty]

theorem size (worn : c.Worn wear c') : c'.size = c.size := by
  rw [Chain.size,worn.index,Chain.size]

theorem get (worn : c.Worn wear c') (name : String) : c'.get name = c.get name := by
  rw [Chain.get,worn.find?,Chain.get]
  simp only [worn.slot]

theorem neighbours (worn : c.Worn wear c') (position : Position) :
    c'.neighbours position = c.neighbours position := by
  cases position <;> simp [Chain.neighbours,worn.find?,worn.slot]

theorem following (worn : c.Worn wear c') (outbound : Bool) (x : EntryId) :
    c'.following outbound x = c.following outbound x := by
  simp [Chain.following,worn.slot]

theorem handle (worn : c.Worn wear c') (ref : SessionRef) (x : EntryId) :
    c'.handle ref x = (c.handle ref x).worn ref wear := by
  rw [Chain.handle,worn.slot,Chain.handle,Handle.worn,if_pos rfl]

theorem entry (worn : c.Worn wear c') (ref : SessionRef) (x : EntryId) :
    c'.entry ref x = (c.entry ref x).moved (·.worn ref wear) := by
  rw [Chain.entry,worn.slot,worn.handle,Chain.entry,Entry.moved]

theorem getEntry (worn : c.Worn wear c') (ref : SessionRef) (name : String) :
    c'.getEntry ref name = (c.getEntry ref name).map (·.moved (·.worn ref wear)) := by
  rw [Chain.getEntry,worn.find?,Chain.getEntry]
  cases c.find? name with
  | none => rfl
  | some x => exact congrArg Except.ok (worn.entry ref x)

theorem isCurrent (worn : c.Worn wear c') {h : Handle} (owned : h.owner = ref) :
    c'.isCurrent (h.worn ref wear) = c.isCurrent h := by
  rw [Bool.eq_iff_iff,isCurrent_iff,isCurrent_iff,mark,mark,Handle.worn_entry,worn.slot,Handle.worn,
    if_pos owned]
  simp

/-- Which chains are in order is not told by how often a slot has been freed. -/
theorem holds (worn : c.Worn wear c') (holds : c.Holds ids flight) :
    c'.Holds ids flight where
  slots := by
    rcases worn.arena with ⟨size,free⟩ | ⟨size,free⟩
    · rw [size,free]
      exact holds.slots
    · rw [size,free,List.range_succ]
      refine List.Perm.trans (.of_eq ?_) (holds.slots.append_right _)
      simp
  links := holds.links.imp fun a b adjacent => by
    rw [Adjacent,worn.slot,worn.slot]
    exact adjacent
  flags x := by
    rw [worn.slot]
    exact holds.flags x
  filters x member := by
    rw [worn.slot]
    exact holds.filters x member
  index := by
    rw [worn.index,List.map_congr_left fun x _ => by rw [worn.slot]]
    exact holds.index
  names := by
    rw [List.map_congr_left fun x _ => by rw [worn.slot]]
    exact holds.names
  ends x member := by
    have unworn : wear x = 0 := by
      simp only [List.mem_cons,List.not_mem_nil,or_false] at member
      rcases member with rfl | rfl
      · exact worn.ends.1
      · exact worn.ends.2
    rw [worn.slot,unworn]
    exact (UInt32.add_zero _).trans (holds.ends x member)
  outer := by
    rw [worn.slot,worn.slot]
    exact holds.outer
  blank x member := by
    have blank : c.slot x = { generation := (c.slot x).generation } := by
      rcases worn.arena with ⟨_,free⟩ | ⟨_,free⟩
      · exact holds.blank x (free ▸ member)
      · rw [free,List.mem_append,List.mem_singleton] at member
        rcases member with old | rfl
        · exact holds.blank x old
        · rw [slot_outside (Nat.le_refl _)]
    rw [worn.slot,blank]

section Views

variable (worn : c.Worn wear c') (holds : c.Holds ids flight)
include worn holds

theorem forwards : c'.forwards = c.forwards := by
  rw [holds.forwards_eq,(worn.holds holds).forwards_eq]

theorem backwards : c'.backwards = c.backwards := by
  rw [holds.backwards_eq,(worn.holds holds).backwards_eq]

theorem holder? (filter : Option FilterId) : c'.holder? filter = c.holder? filter := by
  rw [Chain.holder?,Chain.holder?,worn.forwards holds]
  simp only [worn.slot]

theorem tells (ref : SessionRef) : c.Tells ref (·.worn ref wear) c' where
  getAll := by
    rw [Chain.getAll,Chain.getAll,worn.forwards holds,List.map_map]
    exact List.map_congr_left fun x _ => worn.entry ref x
  getAllReversed := by
    rw [Chain.getAllReversed,Chain.getAllReversed,worn.backwards holds,List.map_map]
    exact List.map_congr_left fun x _ => worn.entry ref x
  contains := worn.contains
  containsFilter filter := congrArg Option.isSome (worn.holder? holds filter)
  findFilter test := by
    rw [Chain.findFilter?,Chain.findFilter?,worn.forwards holds]
    simp only [worn.slot]
  get := worn.get
  getEntry := worn.getEntry ref
  size := worn.size
  toString label := by
    rw [Chain.toString,Chain.toString,worn.forwards holds,worn.isEmpty]
    simp only [worn.slot]
  isCurrent _ := worn.isCurrent
  following h _ outbound := worn.following outbound h.entry

/-- As long as only slots that hold no entry are worn, nothing at all is told of that. -/
theorem tells_same (idle : ∀ x, (c.slot x).linked = true → wear x = 0) (ref : SessionRef) :
    c.Tells ref id c' := by
  have kept {x : EntryId} (linked : (c.slot x).linked = true) : c'.slot x = c.slot x := by
    rw [worn.slot,idle x linked,UInt32.add_zero]
  have entry {x : EntryId} (linked : (c.slot x).linked = true) : c'.entry ref x = c.entry ref x := by
    rw [Chain.entry,Chain.handle,kept linked,Chain.entry,Chain.handle]
  have listed {x : EntryId} (member : x ∈ ids) : (c.slot x).linked = true :=
    (holds.flags x).mpr (by simp [member])
  have told := worn.tells holds ref
  refine { told with
    getAll := ?getAll, getAllReversed := ?reversed, getEntry := fun name => ?entry
    isCurrent := fun h _ => ?current }
  case getAll =>
    rw [Chain.getAll,Chain.getAll,worn.forwards holds,List.map_map,holds.forwards_eq]
    exact List.map_congr_left fun x member => entry (listed member)
  case reversed =>
    rw [Chain.getAllReversed,Chain.getAllReversed,worn.backwards holds,List.map_map,holds.backwards_eq]
    exact List.map_congr_left fun x member => entry (listed (List.mem_reverse.mp member))
  case entry =>
    rw [Chain.getEntry,worn.find?,Chain.getEntry]
    cases found : c.find? name with
    | none => rfl
    | some x =>
      exact congrArg Except.ok (entry (listed ((holds.find?_eq_some_iff name x).mp found).1))
  case current =>
    rw [id,Bool.eq_iff_iff,isCurrent_iff,isCurrent_iff,mark,mark]
    cases linked : (c.slot h.entry).linked with
    | true => rw [kept linked,linked]
    | false => simp [worn.slot,linked]

end Views

/-- Slots that are there and changed alike differ as before. -/
theorem modify (worn : c.Worn wear c') (inside : x < c.slots.size) (change : Slot → Slot)
    (commutes : ∀ (s : Slot) (n : UInt32), change { s with generation := s.generation + n } =
      { change s with generation := (change s).generation + n }) :
    (c.modify x change).Worn wear (c'.modify x change) where
  slot y := by
    have inside' := Nat.lt_of_lt_of_le inside worn.size_le
    rw [slot_modify,slot_modify]
    by_cases same : y = x
    · rw [if_pos ⟨same,inside'⟩,if_pos ⟨same,inside⟩,worn.slot]
      exact commutes _ _
    · rw [if_neg fun both => same both.1,if_neg fun both => same both.1]
      exact worn.slot y
  index := worn.index
  arena := by
    rw [size_modify,size_modify]
    exact worn.arena
  ends := worn.ends

theorem reindex (worn : c.Worn wear c') (change : List (String × EntryId) → List (String × EntryId)) :
    ({ c with index := change c.index } : Chain).Worn wear { c' with index := change c'.index } :=
  ⟨worn.slot,congrArg change worn.index,worn.arena,worn.ends⟩

theorem setFilter (worn : c.Worn wear c') (inside : x < c.slots.size) (filter : FilterId) :
    (c.setFilter x filter).Worn wear (c'.setFilter x filter) := worn.modify inside _ fun _ _ => rfl

theorem release (worn : c.Worn wear c') (inside : x < c.slots.size) :
    (c.release x).Worn wear (c'.release x) := by
  have modified := worn.modify inside (fun s => { generation := s.generation + 1 })
    fun s n => by
      simp only [Slot.mk.injEq,true_and,and_true]
      grind
  refine ⟨modified.slot,worn.index,?_,worn.ends⟩
  rw [size_release,size_release]
  rcases worn.arena with ⟨size,free⟩ | ⟨size,free⟩
  · exact .inl ⟨size,congrArg (x :: ·) free⟩
  · exact .inr ⟨size,congrArg (x :: ·) free⟩

/-- Both take the same slot for a new entry, be it the one that differs or another. -/
theorem allocate (worn : c.Worn wear c') (holds : c.Holds ids flight) (name : String)
    (filter : FilterId) : (c'.allocate name filter).1 = (c.allocate name filter).1 ∧
      (c.allocate name filter).2.Worn wear (c'.allocate name filter).2 := by
  cases free : c.free with
  | cons y rest =>
    have inside : y < c.slots.size := (holds.mem_iff y).mp (by simp [free])
    have taken := worn.modify inside (fun s =>
      { s with name := name, filter := some filter, prev := none, next := none, linked := false })
      fun _ _ => rfl
    rw [allocate_cons free]
    rcases worn.arena with ⟨size,free'⟩ | ⟨size,free'⟩
    · rw [allocate_cons (free'.trans free)]
      exact ⟨rfl,taken.slot,worn.index,.inl ⟨by simpa using size,rfl⟩,worn.ends⟩
    · rw [allocate_cons (free'.trans (congrArg (· ++ [c.slots.size]) free))]
      exact ⟨rfl,taken.slot,worn.index,.inr ⟨by simpa using size,by simp⟩,worn.ends⟩
  | nil =>
    rw [allocate_nil free]
    rcases worn.arena with ⟨size,free'⟩ | ⟨size,free'⟩
    · rw [allocate_nil (free'.trans free)]
      refine ⟨size,fun y => ?_,worn.index,.inl ⟨by simp [size],free'⟩,worn.ends⟩
      rw [slot_push,slot_push,size]
      by_cases last : y = c.slots.size
      · have unworn : wear c.slots.size = 0 := worn.fresh (Nat.le_of_eq size)
        simp [last,unworn]
      · rw [if_neg last,if_neg last,worn.slot]
    · rw [allocate_cons (free'.trans (congrArg (· ++ [c.slots.size]) free))]
      refine ⟨rfl,fun y => ?_,worn.index,.inl ⟨by simp [size],free.symm⟩,worn.ends⟩
      have made := worn.slot c.slots.size
      rw [slot_outside (Nat.le_refl _)] at made
      refine (slot_modify c' c.slots.size _ y).trans ?_
      rw [slot_push,size]
      by_cases last : y = c.slots.size
      · simp [last,made]
      · rw [if_neg fun both => last both.1,if_neg last,worn.slot]

theorem insert (worn : c.Worn wear c') {name : String} {position : Position}
    (holds : c.Holds ids (x :: flight)) (admissible : c.checkAddition name position = .ok ()) :
    (c.insert x name position).Worn wear (c'.insert x name position) := by
  obtain ⟨insidePrev,insideNext⟩ := holds.neighbours_inside admissible
  have linked : (c.link x (c.neighbours position).1 (c.neighbours position).2).Worn wear
      (c'.link x (c.neighbours position).1 (c.neighbours position).2) := by
    refine ((worn.modify (holds.flight_inside List.mem_cons_self) _ ?_).modify ?_ _ ?_).modify ?_ _ ?_
    · exact fun _ _ => rfl
    · rwa [size_modify]
    · exact fun _ _ => rfl
    · rwa [size_modify,size_modify]
    · exact fun _ _ => rfl
  have inserted (c : Chain) : c.insert x name position =
      { c.link x (c.neighbours position).1 (c.neighbours position).2 with
        index := (name,x) :: (c.link x (c.neighbours position).1 (c.neighbours position).2).index } := rfl
  rw [inserted,inserted,worn.neighbours]
  exact linked.reindex ((name,x) :: ·)

theorem drop (worn : c.Worn wear c') (holds : c.Holds ids flight) (member : x ∈ ids) (name : String) :
    (c.drop x name).Worn wear (c'.drop x name) := by
  obtain ⟨before,after,rfl⟩ := List.append_of_mem member
  obtain ⟨left,prev,next,right,_,_,path⟩ := path_around before after x
  have links := holds.links
  have inside {y : EntryId} (member : y ∈ _) := @Holds.inside _ _ _ holds y member
  rw [path] at links inside
  obtain ⟨_,⟨_,fromId⟩,rest⟩ := List.isChain_append_cons_cons.mp links
  obtain ⟨⟨toNext,_⟩,_⟩ := List.isChain_cons_cons.mp rest
  have unlinked : (c.unlink x).Worn wear (c'.unlink x) := by
    simp only [unlink,worn.slot,fromId,toNext]
    refine ((worn.modify (inside (by simp)) _ ?_).modify ?_ _ ?_).modify ?_ _ ?_
    · exact fun _ _ => rfl
    · rw [size_modify]
      exact inside (by simp)
    · exact fun _ _ => rfl
    · rw [size_modify,size_modify]
      exact inside (by simp)
    · exact fun _ _ => rfl
  refine (unlinked.reindex (List.filter (·.1 != name))).release ?_
  rw [size_unlink]
  exact inside (by simp)

end Worn

theorem setFilter_back {old : FilterId} (holding : (c.slot x).filter = some old) (filter : FilterId) :
    (c.setFilter x filter).setFilter x old = c := by
  refine ext_slots (by simp [setFilter]) (fun y => ?_) rfl rfl
  rw [setFilter_slot,setFilter_slot,setFilter,size_modify]
  by_cases same : y = x ∧ x < c.slots.size
  · rw [if_pos same,if_pos same,← holding,same.1]
  · rw [if_neg same,if_neg same]

/-- A slot that was taken and is freed again. -/
theorem Holds.allocate_release (holds : c.Holds ids flight) (name : String) (filter : FilterId) :
    c.Worn (once (c.allocate name filter).1)
      ((c.allocate name filter).2.release (c.allocate name filter).1) := by
  obtain ⟨outside,_,new⟩ := holds.allocate_slot name filter
  have inside := (holds.allocate name filter).flight_inside List.mem_cons_self
  have other {y : EntryId} := @allocate_slot_of_ne c name filter y
  have ends : once (c.allocate name filter).1 head = 0 ∧ once (c.allocate name filter).1 tail = 0 := by
    simp only [List.mem_cons,List.mem_append,not_or] at outside
    exact ⟨if_neg (Ne.symm outside.1),if_neg (Ne.symm outside.2.2.1)⟩
  have slot (blank : c.slot (c.allocate name filter).1 =
      { generation := (c.slot (c.allocate name filter).1).generation }) (y : EntryId) :
      ((c.allocate name filter).2.release (c.allocate name filter).1).slot y = { c.slot y with
        generation := (c.slot y).generation + once (c.allocate name filter).1 y } := by
    by_cases same : y = (c.allocate name filter).1
    · rw [same,release_slot inside,new,blank]
      simp [once]
    · rw [release_slot_of_ne same,other same]
      simp [once,same]
  cases free : c.free with
  | cons y rest =>
    have blank := holds.blank y (by simp [free])
    rw [allocate_cons free] at slot ends ⊢
    exact ⟨slot blank,rfl,.inl ⟨by simp,free.symm⟩,ends⟩
  | nil =>
    have blank : c.slot c.slots.size = {} := slot_outside (Nat.le_refl _)
    rw [allocate_nil free] at slot ends ⊢
    exact ⟨slot (by simp [blank]),rfl,.inr ⟨by simp,by simp [Chain.release,free]⟩,ends⟩

/-- An entry that was linked and leaves again. -/
theorem Holds.insert_drop (holds : c.Holds ids (x :: flight)) {name : String} {position : Position}
    (admissible : c.checkAddition name position = .ok ()) (named : (c.slot x).name = name)
    (filled : (c.slot x).filter.isSome) :
    (c.insert x name position).drop x name = c.release x := by
  obtain ⟨before,after,left,right,rfl,_,first,last⟩ := holds.neighbours admissible
  have linked := holds.insert_between admissible named filled first last
  have slots := holds.insert_slot admissible
  have links := holds.links
  have inside := holds.flight_inside (List.mem_cons_self (a := x))
  have fresh := holds.flight_apart (List.mem_cons_self (a := x))
  have missing := (checkAddition_eq_ok admissible).1
  generalize (c.neighbours position).1 = prev,(c.neighbours position).2 = next at first last slots
  have path : head :: (before ++ x :: after ++ [tail]) = left ++ prev :: x :: next :: right :=
    path_cut first (congrArg (x :: ·) last)
  rw [path_cut first last] at links fresh
  obtain ⟨toNext,toPrev⟩ := (List.isChain_append_cons_cons.mp links).2.1
  refine ext_slots (by simp) (fun y => ?slot) ?free ?index
  case slot =>
    rw [linked.drop_slot path]
    by_cases same : y = x
    · subst same
      rw [release_slot inside]
      simp [slots]
    · rw [release_slot_of_ne same,if_neg same]
      simp only [slots,same]
      cases stands : c.slot y
      simp only [Slot.mk.injEq]
      grind
  case free =>
    have free : (c.insert x name position).free = c.free := rfl
    rw [(drop_rest _ x name).1,Chain.release,free]
  case index =>
    have index : (c.insert x name position).index = (name,x) :: c.index := rfl
    have kept : ∀ pair ∈ c.index, (pair.1 != name) = true := fun pair member => by
      rw [bne_comm]
      exact List.lookup_eq_none_iff.mp missing pair member
    rw [(drop_rest _ x name).2,index,List.filter_cons_of_neg (by simp)]
    exact List.filter_eq_self.mpr kept

end Chain
end SessionPipeline
