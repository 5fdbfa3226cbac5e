import Mathlib.Data.List.Chain
import SessionPipeline.Chain.Arena
import SessionPipeline.Fields

/-! A chain whose arena is in order: the linked slots form one list from head to tail, the index
knows exactly their names, and every other slot is free or in flight, that is, taken for an entry
that is not linked yet. Each edit of a chain keeps this up. -/
namespace SessionPipeline

/-- What a slot tells of its entry, its place in the list apart. -/
def Slot.about (s : Slot) : String × Option FilterId × UInt32 := (s.name,s.filter,s.generation)

namespace Chain

def Adjacent (c : Chain) (a b : EntryId) : Prop :=
  (c.slot a).next = some b ∧ (c.slot b).prev = some a

/-- The chain is in order, `ids` being the linked entries from head to tail and `flight` the slots
that are taken and not linked. -/
structure Holds (c : Chain) (ids flight : List EntryId) : Prop where
  slots : (head :: tail :: (ids ++ (flight ++ c.free))).Perm (List.range c.slots.size)
  links : (head :: (ids ++ [tail])).IsChain c.Adjacent
  flags : ∀ id, (c.slot id).linked = true ↔ id ∈ head :: tail :: ids
  filters : ∀ id ∈ ids, (c.slot id).filter.isSome
  index : c.index.Perm (ids.map fun id => ((c.slot id).name,id))
  names : (ids.map fun id => (c.slot id).name).Nodup
  ends : ∀ id ∈ [head,tail], (c.slot id).generation = 0
  outer : (c.slot head).prev = none ∧ (c.slot tail).next = none
  blank : ∀ id ∈ c.free, c.slot id = { generation := (c.slot id).generation }

variable {c : Chain} {ids flight : List EntryId}

theorem slot_modify (c : Chain) (id : EntryId) (change : Slot → Slot) (x : EntryId) :
    (c.modify id change).slot x =
      if x = id ∧ id < c.slots.size then change (c.slot x) else c.slot x := by
  simp only [slot,modify,Array.getD_eq_getD_getElem?,Array.getElem?_modify]
  by_cases same : id = x
  · subst same
    by_cases inside : id < c.slots.size <;> simp [inside]
  · rw [if_neg same,if_neg fun both => same both.1.symm]

theorem slot_modify_of_ne {id x : EntryId} (other : x ≠ id) (change : Slot → Slot) :
    (c.modify id change).slot x = c.slot x := by
  rw [slot_modify,if_neg fun both => other both.1]

theorem slot_modify_self {id : EntryId} (inside : id < c.slots.size) (change : Slot → Slot) :
    (c.modify id change).slot id = change (c.slot id) := by
  rw [slot_modify,if_pos ⟨rfl,inside⟩]

@[simp] theorem size_modify (id : EntryId) (change : Slot → Slot) :
    (c.modify id change).slots.size = c.slots.size := by
  simp [modify]

theorem empty_holds : empty.Holds [] [] where
  slots := by decide
  links := by simp [Adjacent,slot,empty,head,tail]
  flags id := by
    rcases id with _ | _ | id <;> simp [slot,empty,head,tail]
  filters id member := by simp at member
  index := .nil
  names := .nil
  ends := by decide
  outer := ⟨rfl,rfl⟩
  blank id member := by cases member

theorem Holds.nodup (holds : c.Holds ids flight) :
    (head :: tail :: (ids ++ (flight ++ c.free))).Nodup :=
  holds.slots.nodup_iff.mpr List.nodup_range

theorem Holds.mem_iff (holds : c.Holds ids flight) (id : EntryId) :
    id ∈ head :: tail :: (ids ++ (flight ++ c.free)) ↔ id < c.slots.size := by
  rw [holds.slots.mem_iff,List.mem_range]

theorem Holds.ids_nodup (holds : c.Holds ids flight) : ids.Nodup :=
  (List.nodup_append.mp (List.nodup_cons.mp (List.nodup_cons.mp holds.nodup).2).2).1

theorem Holds.flight_nodup (holds : c.Holds ids flight) : flight.Nodup := by
  have apart := (List.nodup_cons.mp (List.nodup_cons.mp holds.nodup).2).2
  exact (List.nodup_append.mp (List.nodup_append.mp apart).2.1).1

theorem Holds.path_nodup (holds : c.Holds ids flight) : (head :: (ids ++ [tail])).Nodup := by
  have apart := holds.nodup
  simp only [List.nodup_cons,List.nodup_append,List.mem_cons,List.mem_append] at apart ⊢
  grind

theorem Holds.inside (holds : c.Holds ids flight) {id : EntryId}
    (member : id ∈ head :: (ids ++ [tail])) : id < c.slots.size := by
  rw [← holds.mem_iff]
  simp only [List.mem_cons,List.mem_append] at member ⊢
  grind

theorem Holds.flight_inside (holds : c.Holds ids flight) {id : EntryId} (member : id ∈ flight) :
    id < c.slots.size := by
  rw [← holds.mem_iff]
  simp [member]

theorem Holds.flight_apart (holds : c.Holds ids flight) {id : EntryId} (member : id ∈ flight) :
    id ∉ head :: (ids ++ [tail]) := by
  have apart := holds.nodup
  simp only [List.nodup_cons,List.nodup_append,List.mem_cons,List.mem_append] at apart ⊢
  grind

theorem Holds.free_apart (holds : c.Holds ids flight) {id : EntryId} (member : id ∈ c.free) :
    id ∉ head :: (ids ++ [tail]) ∧ id ∉ flight := by
  have apart := holds.nodup
  simp only [List.nodup_cons,List.nodup_append,List.mem_cons,List.mem_append] at apart ⊢
  grind

theorem Holds.mem_of_linked (holds : c.Holds ids flight) {id : EntryId}
    (linked : (c.slot id).linked = true) (between : id ≠ head ∧ id ≠ tail) : id ∈ ids := by
  have member := (holds.flags id).mp linked
  simpa [between] using member

theorem Holds.between (holds : c.Holds ids flight) {id : EntryId} (member : id ∈ ids) :
    id ≠ head ∧ id ≠ tail := by
  have apart := holds.nodup
  simp only [List.nodup_cons,List.mem_cons,List.mem_append,not_or] at apart
  constructor
  · rintro rfl
    exact apart.1.2.1 member
  · rintro rfl
    exact apart.2.1.1 member

theorem Holds.index_names (holds : c.Holds ids flight) : (c.index.map (·.1)).Nodup := by
  have listed := (holds.index.map (·.1)).nodup_iff
  rw [listed,List.map_map]
  exact holds.names

theorem Holds.find?_eq_some_iff (holds : c.Holds ids flight) (name : String) (id : EntryId) :
    c.find? name = some id ↔ id ∈ ids ∧ (c.slot id).name = name := by
  rw [find?,lookup_eq_some_iff_mem holds.index_names,holds.index.mem_iff,List.mem_map]
  constructor
  · rintro ⟨x,member,equal⟩
    obtain ⟨rfl,rfl⟩ := Prod.mk.inj equal
    exact ⟨member,rfl⟩
  · rintro ⟨member,rfl⟩
    exact ⟨id,member,rfl⟩

theorem Holds.find?_eq_none_iff (holds : c.Holds ids flight) (name : String) :
    c.find? name = none ↔ ∀ id ∈ ids, (c.slot id).name ≠ name := by
  rw [Option.eq_none_iff_forall_ne_some]
  constructor
  · intro missing id member same
    exact missing id ((holds.find?_eq_some_iff name id).mpr ⟨member,same⟩)
  · intro missing id found
    obtain ⟨member,same⟩ := (holds.find?_eq_some_iff name id).mp found
    exact missing id member same

/-- Only the slots on the path from head to tail matter, as long as no other is linked. -/
theorem Holds.congr (holds : c.Holds ids flight) {c' : Chain} {flight' : List EntryId}
    (slots : (head :: tail :: (ids ++ (flight' ++ c'.free))).Perm (List.range c'.slots.size))
    (index : c'.index = c.index)
    (same : ∀ x ∈ head :: (ids ++ [tail]), c'.slot x = c.slot x)
    (others : ∀ x, x ∉ head :: (ids ++ [tail]) → (c'.slot x).linked = false)
    (blank : ∀ id ∈ c'.free, c'.slot id = { generation := (c'.slot id).generation }) :
    c'.Holds ids flight' where
  slots := slots
  links := holds.links.imp_of_mem_imp fun a b ha hb adjacent => by
    rw [Adjacent,same a ha,same b hb]
    exact adjacent
  flags id := by
    by_cases member : id ∈ head :: (ids ++ [tail])
    · rw [same id member]
      exact holds.flags id
    · rw [others id member]
      simp only [List.mem_cons,List.mem_append] at member ⊢
      grind
  filters id member := by
    rw [same id (by simp [member])]
    exact holds.filters id member
  index := by
    rw [index]
    refine holds.index.trans (List.Perm.of_eq (List.map_congr_left fun id member => ?_))
    rw [same id (by simp [member])]
  names := by
    rw [List.map_congr_left fun id member => congrArg Slot.name (same id (by simp [member]))]
    exact holds.names
  ends id member := by
    rw [same id (by simp at member; grind)]
    exact holds.ends id member
  outer := by
    rw [same head List.mem_cons_self,same tail (by simp)]
    exact holds.outer
  blank := blank

theorem Holds.unlinked (holds : c.Holds ids flight) {id : EntryId}
    (outside : id ∉ head :: (ids ++ [tail])) : (c.slot id).linked = false := by
  rw [← Bool.not_eq_true,holds.flags]
  simp only [List.mem_cons,List.mem_append] at outside ⊢
  grind

theorem allocate_cons {id : EntryId} {rest : List EntryId} (free : c.free = id :: rest)
    (name : String) (filter : FilterId) : c.allocate name filter = (id, { c.modify id fun s =>
      { s with name := name, filter := some filter, prev := none, next := none, linked := false }
      with free := rest }) := by
  unfold allocate
  rw [free]

theorem allocate_nil (free : c.free = []) (name : String) (filter : FilterId) :
    c.allocate name filter = (c.slots.size,{ c with
      slots := c.slots.push { name := name, filter := some filter } }) := by
  unfold allocate
  rw [free]

theorem size_allocate (c : Chain) (name : String) (filter : FilterId) :
    c.slots.size ≤ (c.allocate name filter).2.slots.size := by
  unfold allocate
  split <;> simp

theorem allocate_slot_of_ne (c : Chain) {name : String} {filter : FilterId} {x : EntryId}
    (other : x ≠ (c.allocate name filter).1) :
    (c.allocate name filter).2.slot x = c.slot x := by
  unfold allocate at other ⊢
  split at other
  · exact slot_modify_of_ne other _
  · simp only [slot,Array.getD_eq_getD_getElem?,Array.getElem?_push]
    rw [if_neg other]

/-- The slot for a new entry was not in use; it has the entry's name and filter and keeps its
generation. -/
theorem Holds.allocate_slot (holds : c.Holds ids flight) (name : String) (filter : FilterId) :
    (c.allocate name filter).1 ∉ head :: (ids ++ [tail]) ∧ (c.allocate name filter).1 ∉ flight ∧
      (c.allocate name filter).2.slot (c.allocate name filter).1 =
        { name := name, filter := some filter,
          generation := (c.slot (c.allocate name filter).1).generation } := by
  have apart := holds.nodup
  have inside := holds.mem_iff
  unfold allocate
  split
  · rename_i id free stack
    simp only [stack] at apart inside ⊢
    have size : id < c.slots.size := (inside id).mp (by simp)
    refine ⟨?_,?_,slot_modify_self size _⟩
    · simp only [List.nodup_cons,List.nodup_append,List.mem_cons,List.mem_append] at apart ⊢
      grind
    · simp only [List.nodup_cons,List.nodup_append,List.mem_cons,List.mem_append] at apart ⊢
      grind
  · have outside : c.slots.size ∉ head :: tail :: (ids ++ (flight ++ c.free)) := by
      rw [inside]
      exact Nat.lt_irrefl _
    simp only [List.mem_cons,List.mem_append,not_or] at outside
    refine ⟨?_,by grind,by simp [slot]⟩
    simp only [List.mem_cons,List.mem_append]
    grind

theorem Holds.allocate_free (holds : c.Holds ids flight) (name : String) (filter : FilterId)
    {x : EntryId} (member : x ∈ (c.allocate name filter).2.free) :
    x ∈ c.free ∧ x ≠ (c.allocate name filter).1 := by
  have apart := holds.nodup
  unfold Chain.allocate at member ⊢
  split at member
  · rename_i id free stack
    simp only [stack,List.nodup_cons,List.nodup_append] at apart ⊢
    refine ⟨List.mem_cons_of_mem _ member,?_⟩
    rintro rfl
    exact apart.2.2.2.1.2.1.1 member
  · rename_i stack
    simp [stack] at member

theorem Holds.allocate (holds : c.Holds ids flight) (name : String) (filter : FilterId) :
    (c.allocate name filter).2.Holds ids ((c.allocate name filter).1 :: flight) := by
  obtain ⟨outside,_,new⟩ := holds.allocate_slot name filter
  have other {x : EntryId} := @allocate_slot_of_ne c name filter x
  refine holds.congr ?_ ?_ (fun x member => other fun same => outside (same ▸ member)) ?_ ?_
  · have slots := holds.slots
    unfold Chain.allocate
    split
    · rename_i id free stack
      rw [stack] at slots
      refine List.Perm.trans (.cons _ (.cons _ (.append_left _ ?_))) (by simpa using slots)
      exact List.perm_middle.symm
    · rename_i stack
      rw [stack] at slots
      simp only [Array.size_push,List.range_succ,stack]
      refine List.Perm.trans ?_ (slots.append_right [c.slots.size])
      simp only [List.cons_append,List.append_assoc,List.append_nil]
      refine .cons _ (.cons _ (.append_left _ ?_))
      exact (List.perm_append_singleton _ _).symm
  · unfold Chain.allocate
    split <;> rfl
  · intro x outside
    by_cases same : x = (c.allocate name filter).1
    · rw [same,new]
    · rw [other same]
      exact holds.unlinked outside
  · intro x member
    obtain ⟨free,differs⟩ := holds.allocate_free name filter member
    rw [other differs]
    exact holds.blank x free

@[simp] theorem size_release (c : Chain) (id : EntryId) :
    (c.release id).slots.size = c.slots.size := by
  simp [release]

theorem release_slot_of_ne {id x : EntryId} (other : x ≠ id) :
    (c.release id).slot x = c.slot x := slot_modify_of_ne other _

theorem release_slot {id : EntryId} (inside : id < c.slots.size) :
    (c.release id).slot id = { generation := (c.slot id).generation + 1 } :=
  slot_modify_self inside _

theorem Holds.release {id : EntryId} (holds : c.Holds ids (id :: flight)) :
    (c.release id).Holds ids flight := by
  have outside := holds.flight_apart (List.mem_cons_self (a := id))
  have inside := holds.flight_inside (List.mem_cons_self (a := id))
  refine holds.congr ?_ rfl
    (fun x member => release_slot_of_ne fun same => outside (same ▸ member)) ?_ ?_
  · rw [size_release]
    refine List.Perm.trans (.cons _ (.cons _ (.append_left _ ?_))) holds.slots
    exact List.perm_middle
  · intro x apart
    by_cases same : x = id
    · rw [same,release_slot inside]
    · rw [release_slot_of_ne same]
      exact holds.unlinked apart
  · intro x member
    by_cases same : x = id
    · rw [same,release_slot inside]
    · rw [release_slot_of_ne same]
      exact holds.blank x ((List.mem_cons.mp member).resolve_left same)

theorem slot_link {id prev next : EntryId} (inside : id < c.slots.size)
    (insidePrev : prev < c.slots.size) (insideNext : next < c.slots.size) (x : EntryId) :
    (c.link id prev next).slot x =
      { c.slot x with
        next := if x = prev then some id else if x = id then some next else (c.slot x).next
        prev := if x = next then some id else if x = id then some prev else (c.slot x).prev
        linked := x = id || (c.slot x).linked } := by
  simp only [link,slot_modify,size_modify,inside,insidePrev,insideNext,and_true]
  cases c.slot x
  grind

theorem slot_unlink {id prev next : EntryId} (before : (c.slot id).prev = some prev)
    (after : (c.slot id).next = some next) (inside : id < c.slots.size)
    (insidePrev : prev < c.slots.size) (insideNext : next < c.slots.size)
    (x : EntryId) :
    (c.unlink id).slot x =
      { c.slot x with
        next := if x = prev then some next else (c.slot x).next
        prev := if x = next then some prev else (c.slot x).prev
        linked := x ≠ id && (c.slot x).linked } := by
  simp only [unlink,before,after,slot_modify,size_modify,inside,insidePrev,insideNext,and_true]
  cases c.slot x
  grind

theorem link_path {left right : List EntryId} {id prev next : EntryId}
    (links : (left ++ prev :: next :: right).IsChain c.Adjacent)
    (apart : (left ++ prev :: next :: right).Nodup) (fresh : id ∉ left ++ prev :: next :: right)
    (inside : id < c.slots.size) (insidePrev : prev < c.slots.size)
    (insideNext : next < c.slots.size) :
    (left ++ prev :: id :: next :: right).IsChain (c.link id prev next).Adjacent := by
  have slots := slot_link inside insidePrev insideNext
  obtain ⟨before,between,after⟩ := List.isChain_append_cons_cons.mp links
  obtain ⟨toNext,toPrev⟩ := between
  simp only [List.mem_append,List.mem_cons,not_or] at fresh
  simp only [List.nodup_append,List.nodup_cons,List.mem_cons] at apart
  -- Only the pair of the two neighbours is affected.
  have unchanged {a b : EntryId} (adjacent : c.Adjacent a b) (notPrev : a ≠ prev ∨ b ≠ next)
      (old : a ≠ id ∧ b ≠ id) : (c.link id prev next).Adjacent a b := by
    obtain ⟨forward,backward⟩ := adjacent
    have leaves : a ≠ prev := by
      rintro rfl
      rw [toNext] at forward
      grind
    have enters : b ≠ next := by
      rintro rfl
      rw [toPrev] at backward
      grind
    rw [Adjacent,slots a,slots b]
    simp [leaves,enters,old,forward,backward]
  refine List.isChain_append_cons_cons.mpr ⟨?_,?_,List.isChain_cons_cons.mpr ⟨?_,?_⟩⟩
  · refine before.imp_of_mem_imp fun a b ha hb adjacent => unchanged adjacent (.inr ?_) ?_
    · simp only [List.mem_append,List.mem_singleton] at hb
      grind
    · simp only [List.mem_append,List.mem_singleton] at ha hb
      grind
  · rw [Adjacent,slots prev,slots id]
    grind
  · rw [Adjacent,slots id,slots next]
    grind
  · refine after.imp_of_mem_imp fun a b ha hb adjacent => unchanged adjacent (.inl ?_) ?_
    · simp only [List.mem_cons] at ha
      grind
    · simp only [List.mem_cons] at ha hb
      grind

theorem unlink_path {left right : List EntryId} {id prev next : EntryId}
    (links : (left ++ prev :: id :: next :: right).IsChain c.Adjacent)
    (apart : (left ++ prev :: id :: next :: right).Nodup)
    (inside : id < c.slots.size) (insidePrev : prev < c.slots.size)
    (insideNext : next < c.slots.size) :
    (left ++ prev :: next :: right).IsChain (c.unlink id).Adjacent := by
  obtain ⟨before,⟨toId,fromId⟩,rest⟩ := List.isChain_append_cons_cons.mp links
  obtain ⟨⟨toNext,fromNext⟩,after⟩ := List.isChain_cons_cons.mp rest
  have slots := slot_unlink fromId toNext inside insidePrev insideNext
  simp only [List.nodup_append,List.nodup_cons,List.mem_cons] at apart
  have unchanged {a b : EntryId} (adjacent : c.Adjacent a b) (notPrev : a ≠ prev ∨ b ≠ id)
      (notNext : a ≠ id ∨ b ≠ next) : (c.unlink id).Adjacent a b := by
    obtain ⟨forward,backward⟩ := adjacent
    have leaves : a ≠ prev := by
      rintro rfl
      rw [toId] at forward
      grind
    have enters : b ≠ next := by
      rintro rfl
      rw [fromNext] at backward
      grind
    rw [Adjacent,slots a,slots b]
    simp [leaves,enters,forward,backward]
  refine List.isChain_append_cons_cons.mpr ⟨?_,?_,?_⟩
  · refine before.imp_of_mem_imp fun a b ha hb adjacent => unchanged adjacent (.inr ?_) (.inr ?_)
    · simp only [List.mem_append,List.mem_singleton] at hb
      grind
    · simp only [List.mem_append,List.mem_singleton] at hb
      grind
  · rw [Adjacent,slots prev,slots next]
    simp
  · refine after.imp_of_mem_imp fun a b ha hb adjacent => unchanged adjacent (.inl ?_) (.inl ?_)
    · simp only [List.mem_cons] at ha
      grind
    · simp only [List.mem_cons] at ha
      grind

/-- Where a position cuts the list of entries. -/
def Cuts (c : Chain) (before after : List EntryId) : Position → Prop
  | .first => before = []
  | .last => after = []
  | .before base => ∃ id rest, after = id :: rest ∧ (c.slot id).name = base
  | .after base => ∃ rest id, before = rest ++ [id] ∧ (c.slot id).name = base

theorem checkAddition_eq_ok {name : String} {position : Position}
    (admissible : c.checkAddition name position = .ok ()) :
    c.find? name = none ∧ ∀ base, position = .before base ∨ position = .after base →
      ∃ id, c.find? base = some id := by
  unfold checkAddition contains at admissible
  split at admissible
  · cases admissible
  · rename_i missing
    refine ⟨by simpa using missing,fun base relative => Option.isSome_iff_exists.mp ?_⟩
    rcases relative with rfl | rfl <;>
    · unfold checkBase contains at admissible
      simp only at admissible
      split at admissible
      · assumption
      · cases admissible

theorem Holds.neighbours (holds : c.Holds ids flight) {name : String} {position : Position}
    (admissible : c.checkAddition name position = .ok ()) :
    ∃ before after left right, ids = before ++ after ∧ c.Cuts before after position ∧
      head :: before = left ++ [(c.neighbours position).1] ∧
      after ++ [tail] = (c.neighbours position).2 :: right := by
  obtain ⟨_,based⟩ := checkAddition_eq_ok admissible
  have links := holds.links
  cases position with
  | first =>
    obtain ⟨next,right,path⟩ := List.exists_cons_of_ne_nil (List.append_ne_nil_of_right_ne_nil ids
      (List.cons_ne_nil tail []))
    rw [path] at links
    obtain ⟨toNext,_⟩ := (List.isChain_cons_cons.mp links).1
    refine ⟨[],ids,[],right,rfl,rfl,rfl,?_⟩
    rw [path,Chain.neighbours,toNext]
    rfl
  | last =>
    have path := List.dropLast_concat_getLast (List.cons_ne_nil head ids)
    generalize (head :: ids).dropLast = left,(head :: ids).getLast _ = prev at path
    rw [← List.cons_append,← path,List.append_assoc] at links
    obtain ⟨_,fromTail⟩ := (List.isChain_append_cons_cons.mp links).2.1
    refine ⟨ids,[],left,[],by simp,rfl,?_,rfl⟩
    rw [← path,Chain.neighbours,fromTail]
    rfl
  | before base =>
    obtain ⟨id,found⟩ := based base (.inl rfl)
    obtain ⟨member,named⟩ := (holds.find?_eq_some_iff base id).mp found
    obtain ⟨before,after,rfl⟩ := List.append_of_mem member
    have path := List.dropLast_concat_getLast (List.cons_ne_nil head before)
    generalize (head :: before).dropLast = left,(head :: before).getLast _ = prev at path
    rw [List.append_assoc,← List.cons_append,← path,List.append_assoc] at links
    obtain ⟨_,fromId⟩ := (List.isChain_append_cons_cons.mp links).2.1
    refine ⟨before,id :: after,left,after ++ [tail],rfl,⟨id,after,rfl,named⟩,?_,?_⟩
    · rw [← path,Chain.neighbours,found]
      simp [fromId]
    · rw [Chain.neighbours,found]
      rfl
  | after base =>
    obtain ⟨id,found⟩ := based base (.inr rfl)
    obtain ⟨member,named⟩ := (holds.find?_eq_some_iff base id).mp found
    obtain ⟨before,after,rfl⟩ := List.append_of_mem member
    obtain ⟨next,right,path⟩ := List.exists_cons_of_ne_nil (List.append_ne_nil_of_right_ne_nil after
      (List.cons_ne_nil tail []))
    rw [List.append_assoc,List.cons_append,path,← List.cons_append] at links
    obtain ⟨toNext,_⟩ := (List.isChain_append_cons_cons.mp links).2.1
    refine ⟨before ++ [id],after,head :: before,right,by simp,⟨before,id,rfl,named⟩,?_,?_⟩
    · rw [Chain.neighbours,found]
      rfl
    · rw [path,Chain.neighbours,found]
      simp [toNext]

theorem Holds.neighbours_inside (holds : c.Holds ids flight) {name : String} {position : Position}
    (admissible : c.checkAddition name position = .ok ()) :
    (c.neighbours position).1 < c.slots.size ∧ (c.neighbours position).2 < c.slots.size := by
  obtain ⟨before,after,left,right,rfl,_,first,last⟩ := holds.neighbours admissible
  constructor
  · refine holds.inside ?_
    rw [List.append_assoc,← List.cons_append,first]
    simp
  · refine holds.inside ?_
    rw [List.append_assoc,last]
    simp

@[simp] theorem size_link (c : Chain) (id prev next : EntryId) :
    (c.link id prev next).slots.size = c.slots.size := by
  simp [link]

@[simp] theorem size_insert (c : Chain) (id : EntryId) (name : String) (position : Position) :
    (c.insert id name position).slots.size = c.slots.size := size_link ..

theorem Holds.insert_slot {id : EntryId} (holds : c.Holds ids (id :: flight)) {name : String}
    {position : Position} (admissible : c.checkAddition name position = .ok ()) (x : EntryId) :
    (c.insert id name position).slot x =
      { c.slot x with
        next := if x = (c.neighbours position).1 then some id
          else if x = id then some (c.neighbours position).2 else (c.slot x).next
        prev := if x = (c.neighbours position).2 then some id
          else if x = id then some (c.neighbours position).1 else (c.slot x).prev
        linked := x = id || (c.slot x).linked } := by
  obtain ⟨insidePrev,insideNext⟩ := holds.neighbours_inside admissible
  exact slot_link (holds.flight_inside List.mem_cons_self) insidePrev insideNext x

/-- Of two neighbours in a list the later is not its first and the earlier not its last. -/
theorem neighbours_ne_ends {xs left right : List EntryId} {first last prev next : EntryId}
    (apart : (first :: (xs ++ [last])).Nodup)
    (path : first :: (xs ++ [last]) = left ++ prev :: next :: right) : next ≠ first ∧ prev ≠ last := by
  have ends : last ∈ next :: right := by
    have same := congrArg List.getLast? path
    simp only [← List.cons_append,List.getLast?_append,List.getLast?_cons_cons] at same
    exact List.mem_of_getLast? (by simpa using same.symm)
  rw [path] at apart
  constructor
  · rintro rfl
    cases left with
    | nil =>
      obtain ⟨rfl,_⟩ := List.cons.inj path
      simp at apart
    | cons x left =>
      obtain ⟨rfl,_⟩ := List.cons.inj path
      simp at apart
  · rintro rfl
    exact (List.nodup_cons.mp (List.nodup_append.mp apart).2.1).1 ends

/-- The path from head to tail, seen from a place where the list of entries is cut. -/
theorem path_cut {before after left right : List EntryId} {prev next : EntryId}
    (first : head :: before = left ++ [prev]) (last : after ++ [tail] = next :: right) :
    head :: (before ++ after ++ [tail]) = left ++ prev :: next :: right := by
  rw [List.append_assoc,← List.cons_append,first,last]
  simp

/-- A new entry stands between the neighbours of its position. -/
theorem Holds.insert_between {id : EntryId} {before after left right : List EntryId} {name : String}
    {position : Position} (holds : c.Holds (before ++ after) (id :: flight))
    (admissible : c.checkAddition name position = .ok ()) (named : (c.slot id).name = name)
    (filled : (c.slot id).filter.isSome)
    (first : head :: before = left ++ [(c.neighbours position).1])
    (last : after ++ [tail] = (c.neighbours position).2 :: right) :
    (c.insert id name position).Holds (before ++ id :: after) flight := by
  obtain ⟨insidePrev,insideNext⟩ := holds.neighbours_inside admissible
  have fresh := holds.flight_apart (List.mem_cons_self (a := id))
  have slots := holds.insert_slot admissible
  have path := path_cut first last
  have shuffle : (before ++ id :: after).Perm (id :: (before ++ after)) := List.perm_middle
  refine ⟨?slots,?links,?flags,?filters,?index,?names,?ends,?outer,?blank⟩
  case slots =>
    rw [size_insert]
    refine List.Perm.trans (.cons _ (.cons _ ?_)) holds.slots
    refine (shuffle.append_right _).trans ?_
    exact List.perm_middle.symm
  case links =>
    have links := holds.links
    have apart := holds.path_nodup
    rw [path] at links apart fresh
    rw [path_cut first (congrArg (id :: ·) last)]
    exact link_path links apart fresh (holds.flight_inside List.mem_cons_self) insidePrev insideNext
  case flags =>
    intro x
    rw [slots x]
    simp only [Bool.or_eq_true,decide_eq_true_eq,holds.flags,List.mem_cons,shuffle.mem_iff]
    grind
  case filters =>
    intro x member
    rw [slots x]
    rcases List.mem_cons.mp (shuffle.mem_iff.mp member) with rfl | member
    · exact filled
    · exact holds.filters x member
  case index =>
    have same : (before ++ id :: after).map (fun x => (((c.insert id name position).slot x).name,x))
        = (before ++ id :: after).map fun x => ((c.slot x).name,x) :=
      List.map_congr_left fun x _ => by rw [slots x]
    rw [same]
    refine List.Perm.trans ?_ (shuffle.map _).symm
    rw [List.map_cons,named]
    exact holds.index.cons (name,id)
  case names =>
    have same : (before ++ id :: after).map (fun x => ((c.insert id name position).slot x).name)
        = (before ++ id :: after).map fun x => (c.slot x).name :=
      List.map_congr_left fun x _ => by rw [slots x]
    rw [same,(shuffle.map _).nodup_iff,List.map_cons,named,List.nodup_cons]
    refine ⟨?_,holds.names⟩
    have missing := (holds.find?_eq_none_iff name).mp (checkAddition_eq_ok admissible).1
    rintro member
    obtain ⟨x,inside,equal⟩ := List.mem_map.mp member
    exact missing x inside equal
  case ends =>
    intro x member
    rw [slots x]
    exact holds.ends x member
  case outer =>
    obtain ⟨notHead,notTail⟩ := neighbours_ne_ends holds.path_nodup path
    simp only [List.mem_cons,List.mem_append,not_or] at fresh
    rw [slots head,slots tail]
    simp [Ne.symm notHead,Ne.symm notTail,Ne.symm fresh.1,Ne.symm fresh.2.2.1,holds.outer]
  case blank =>
    intro x member
    obtain ⟨outside,landed⟩ := holds.free_apart member
    rw [path] at outside
    simp only [List.mem_append,List.mem_cons,not_or] at outside landed
    rw [slots x,holds.blank x member]
    simp [outside,landed]

theorem Holds.insert {id : EntryId} (holds : c.Holds ids (id :: flight)) {name : String}
    {position : Position} (admissible : c.checkAddition name position = .ok ())
    (named : (c.slot id).name = name) (filled : (c.slot id).filter.isSome) :
    ∃ before after, ids = before ++ after ∧ c.Cuts before after position ∧
      (c.insert id name position).Holds (before ++ id :: after) flight := by
  obtain ⟨before,after,left,right,rfl,cuts,first,last⟩ := holds.neighbours admissible
  exact ⟨before,after,rfl,cuts,holds.insert_between admissible named filled first last⟩

theorem path_around (before after : List EntryId) (id : EntryId) : ∃ left prev next right,
    head :: before = left ++ [prev] ∧ after ++ [tail] = next :: right ∧
      head :: (before ++ id :: after ++ [tail]) = left ++ prev :: id :: next :: right := by
  obtain ⟨next,right,last⟩ := List.exists_cons_of_ne_nil (List.append_ne_nil_of_right_ne_nil after
    (List.cons_ne_nil tail []))
  have first := List.dropLast_concat_getLast (List.cons_ne_nil head before)
  generalize (head :: before).dropLast = left,(head :: before).getLast _ = prev at first
  exact ⟨left,prev,next,right,first.symm,last,path_cut first.symm (congrArg (id :: ·) last)⟩

@[simp] theorem size_unlink (c : Chain) (id : EntryId) :
    (c.unlink id).slots.size = c.slots.size := by
  simp only [unlink,size_modify]
  split <;> split <;> simp only [size_modify]

@[simp] theorem size_drop (c : Chain) (id : EntryId) (name : String) :
    (c.drop id name).slots.size = c.slots.size := by
  unfold drop
  rw [size_release]
  exact size_unlink c id

theorem unlink_rest (c : Chain) (id : EntryId) :
    (c.unlink id).free = c.free ∧ (c.unlink id).index = c.index := by
  simp only [unlink]
  split <;> split <;> exact ⟨rfl,rfl⟩

theorem drop_slot_of_ne {id x : EntryId} (other : x ≠ id) (name : String) :
    (c.drop id name).slot x = (c.unlink id).slot x := slot_modify_of_ne other _

theorem Holds.drop_slot {before after left right : List EntryId} {id prev next : EntryId}
    (holds : c.Holds (before ++ id :: after) flight)
    (path : head :: (before ++ id :: after ++ [tail]) = left ++ prev :: id :: next :: right)
    (name : String) (x : EntryId) :
    (c.drop id name).slot x =
      if x = id then { generation := (c.slot id).generation + 1 }
      else { c.slot x with
        next := if x = prev then some next else (c.slot x).next
        prev := if x = next then some prev else (c.slot x).prev } := by
  have links := holds.links
  have apart := holds.path_nodup
  have inside {x : EntryId} (member : x ∈ _) := @Holds.inside _ _ _ holds x member
  rw [path] at links apart inside
  obtain ⟨_,⟨_,fromId⟩,rest⟩ := List.isChain_append_cons_cons.mp links
  obtain ⟨⟨toNext,_⟩,_⟩ := List.isChain_cons_cons.mp rest
  have slots := slot_unlink fromId toNext (inside (by simp)) (inside (by simp)) (inside (by simp))
  simp only [List.nodup_append,List.nodup_cons,List.mem_cons] at apart
  by_cases same : x = id
  · subst same
    have size : x < (c.unlink x).slots.size := by
      rw [size_unlink]
      exact inside (by simp)
    rw [if_pos rfl]
    refine (slot_modify_self size _).trans ?_
    rw [slots x]
  · rw [if_neg same,drop_slot_of_ne same,slots x]
    simp [same]

theorem drop_rest (c : Chain) (id : EntryId) (name : String) :
    (c.drop id name).free = id :: c.free ∧
      (c.drop id name).index = c.index.filter (·.1 != name) := by
  obtain ⟨free,index⟩ := unlink_rest c id
  exact ⟨congrArg (id :: ·) free,congrArg (List.filter _) index⟩

/-- What is left on the path has the neighbours that `unlink` gives it. -/
theorem Holds.drop_links {before after left right : List EntryId} {id prev next : EntryId}
    (holds : c.Holds (before ++ id :: after) flight)
    (path : head :: (before ++ id :: after ++ [tail]) = left ++ prev :: id :: next :: right)
    (name : String) : (left ++ prev :: next :: right).IsChain (c.drop id name).Adjacent := by
  have links := holds.links
  have apart := holds.path_nodup
  have inside {x : EntryId} (member : x ∈ _) := @Holds.inside _ _ _ holds x member
  rw [path] at links apart inside
  have joined := unlink_path links apart (inside (by simp)) (inside (by simp)) (inside (by simp))
  have away {x : EntryId} (member : x ∈ left ++ prev :: next :: right) : x ≠ id := by
    simp only [List.nodup_append,List.nodup_cons,List.mem_cons] at apart
    simp only [List.mem_append,List.mem_cons] at member
    grind
  refine joined.imp_of_mem_imp fun a b ha hb adjacent => ?_
  rw [Adjacent,drop_slot_of_ne (away ha),drop_slot_of_ne (away hb)]
  exact adjacent

/-- Names are distinct, so none of the other entries has the name of this one. -/
theorem Holds.name_once {before after : List EntryId} {id : EntryId}
    (holds : c.Holds (before ++ id :: after) flight) :
    (∀ x ∈ before ++ after, (c.slot x).name ≠ (c.slot id).name) ∧
      ((before ++ after).map fun x => (c.slot x).name).Nodup := by
  have names := (List.perm_middle.map fun x => (c.slot x).name).nodup_iff.mp holds.names
  rw [List.map_cons,List.nodup_cons] at names
  exact ⟨fun x member same => names.1 (List.mem_map.mpr ⟨x,member,same⟩),names.2⟩

/-- What is erased from the index by name is this one entry. -/
theorem Holds.index_without {before after : List EntryId} {id : EntryId}
    (holds : c.Holds (before ++ id :: after) flight) :
    (c.index.filter (·.1 != (c.slot id).name)).Perm
      ((before ++ after).map fun x => ((c.slot x).name,x)) := by
  have listed := (holds.index.trans (List.perm_middle.map _)).filter (·.1 != (c.slot id).name)
  have others : ∀ pair ∈ (before ++ after).map fun x => ((c.slot x).name,x),
      (pair.1 != (c.slot id).name) = true := by
    rintro pair member
    obtain ⟨x,inside,rfl⟩ := List.mem_map.mp member
    simpa using holds.name_once.1 x inside
  rw [List.map_cons,List.filter_cons_of_neg (by simp),List.filter_eq_self.mpr others] at listed
  exact listed

theorem Holds.drop {id : EntryId} (holds : c.Holds ids flight) (member : id ∈ ids) :
    ∃ before after, ids = before ++ id :: after ∧
      (c.drop id (c.slot id).name).Holds (before ++ after) flight := by
  obtain ⟨before,after,rfl⟩ := List.append_of_mem member
  obtain ⟨left,prev,next,right,first,last,path⟩ := path_around before after id
  have slots := holds.drop_slot path (c.slot id).name
  obtain ⟨free,index⟩ := c.drop_rest id (c.slot id).name
  have apart := holds.path_nodup
  have shuffle : (before ++ id :: after).Perm (id :: (before ++ after)) := List.perm_middle
  have once := List.nodup_cons.mp (shuffle.nodup_iff.mp holds.ids_nodup)
  have others {x : EntryId} (other : x ∈ before ++ after) : x ≠ id := by
    rintro rfl
    exact once.1 other
  obtain ⟨notHead,notTail⟩ := holds.between member
  have name {x : EntryId} (member : x ∈ before ++ after) :
      ((c.drop id (c.slot id).name).slot x).name = (c.slot x).name := by
    rw [slots x,if_neg (others member)]
  refine ⟨before,after,rfl,?slots,?links,?flags,?filters,?index,?names,?ends,?outer,?blank⟩
  case slots =>
    rw [free,size_drop]
    refine List.Perm.trans (.cons _ (.cons _ ?_)) holds.slots
    refine List.Perm.trans ?_ (shuffle.append_right _).symm
    rw [List.cons_append]
    simp only [← List.append_assoc]
    exact List.perm_middle
  case links =>
    rw [path_cut first last]
    exact holds.drop_links path _
  case flags =>
    intro x
    rw [slots x]
    by_cases same : x = id
    · subst same
      simp [notHead,notTail,once.1]
    · rw [if_neg same]
      simp only [holds.flags,List.mem_cons,shuffle.mem_iff]
      grind
  case filters =>
    intro x member
    rw [slots x,if_neg (others member)]
    exact holds.filters x (shuffle.mem_iff.mpr (List.mem_cons_of_mem _ member))
  case index =>
    rw [index]
    refine holds.index_without.trans (List.Perm.of_eq (List.map_congr_left fun x member => ?_))
    rw [name member]
  case names =>
    rw [List.map_congr_left fun x member => name member]
    exact holds.name_once.2
  case ends =>
    intro x edge
    have other : x ≠ id := by
      rintro rfl
      simp [notHead,notTail] at edge
    rw [slots x,if_neg other]
    exact holds.ends x edge
  case outer =>
    have beyond := List.append_cons left prev (id :: next :: right)
    have behind := (neighbours_ne_ends apart path).2
    have ahead := (neighbours_ne_ends apart (path.trans beyond)).1
    rw [slots head,slots tail,if_neg (Ne.symm notHead),if_neg (Ne.symm notTail)]
    simp [Ne.symm ahead,Ne.symm behind,holds.outer]
  case blank =>
    intro x member
    rw [slots x]
    split
    next => rfl
    next other =>
      rw [free] at member
      have spare := (List.mem_cons.mp member).resolve_left other
      have outside := (holds.free_apart spare).1
      rw [path] at outside
      simp only [List.mem_append,List.mem_cons,not_or] at outside
      rw [holds.blank x spare]
      simp [outside]

theorem setFilter_slot (c : Chain) (id : EntryId) (filter : FilterId) (x : EntryId) :
    (c.setFilter id filter).slot x =
      if x = id ∧ id < c.slots.size then { c.slot x with filter := some filter } else c.slot x :=
  slot_modify ..

theorem Holds.setFilter (holds : c.Holds ids flight) {id : EntryId}
    (linked : (c.slot id).linked = true) (filter : FilterId) :
    (c.setFilter id filter).Holds ids flight := by
  have slots := setFilter_slot c id filter
  have same (x : EntryId) : ((c.setFilter id filter).slot x).name = (c.slot x).name ∧
      ((c.setFilter id filter).slot x).next = (c.slot x).next ∧
      ((c.setFilter id filter).slot x).prev = (c.slot x).prev ∧
      ((c.setFilter id filter).slot x).linked = (c.slot x).linked ∧
      ((c.setFilter id filter).slot x).generation = (c.slot x).generation := by
    rw [slots x]
    split <;> simp
  refine ⟨?slots,?links,?flags,?filters,?index,?names,?ends,?outer,?blank⟩
  case slots =>
    rw [Chain.setFilter,size_modify]
    exact holds.slots
  case links =>
    refine holds.links.imp fun a b adjacent => ?_
    rw [Adjacent,(same a).2.1,(same b).2.2.1]
    exact adjacent
  case flags =>
    intro x
    rw [(same x).2.2.2.1]
    exact holds.flags x
  case filters =>
    intro x member
    rw [slots x]
    split
    · rfl
    · exact holds.filters x member
  case index =>
    refine holds.index.trans (List.Perm.of_eq (List.map_congr_left fun x _ => ?_))
    rw [(same x).1]
  case names =>
    rw [List.map_congr_left fun x _ => (same x).1]
    exact holds.names
  case ends =>
    intro x member
    rw [(same x).2.2.2.2]
    exact holds.ends x member
  case outer =>
    rw [(same head).2.2.1,(same tail).2.1]
    exact holds.outer
  case blank =>
    intro x member
    have other : x ≠ id := by
      rintro rfl
      rw [holds.unlinked (holds.free_apart member).1] at linked
      cases linked
    rw [slots x,if_neg fun both => other both.1]
    exact holds.blank x member

end Chain
end SessionPipeline
