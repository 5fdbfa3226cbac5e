import SessionPipeline.Proofs.Chain.Refusal
import SessionPipeline.Proofs.Chain.Travel

/-! A chain beside the same chain with one entry more. Every other entry is the same in both, and an event
that goes on from one of them meets the same entries, the one more apart. -/
namespace SessionPipeline.Chain

variable {c c' : Chain} {ids flight : List EntryId} {place : Handle} {f : FilterId}

/-- The first chain is the second one with an entry spliced in. -/
structure Spliced (c c' : Chain) (place : Handle) (filter : FilterId) : Prop where
  current : c.isCurrent place = true
  holder : (c.slot place.entry).filter = some filter
  absent : (c'.slot place.entry).linked = false
  between : place.entry ≠ head ∧ place.entry ≠ tail
  about : ∀ id, id ≠ place.entry → (c.slot id).about = (c'.slot id).about
  linked : ∀ id, id ≠ place.entry → (c.slot id).linked = (c'.slot id).linked
  inside : ∀ id, id ≠ place.entry → (id < c.slots.size ↔ id < c'.slots.size)
  /-- From a linked slot the way goes on as without the entry, or to the entry and from there as without. -/
  way : ∀ id, (c'.slot id).linked = true → ∀ outbound, c'.following outbound id ≠ place.entry ∧
    (c.following outbound id = c'.following outbound id ∨
      c.following outbound id = place.entry ∧
        c.following outbound place.entry = c'.following outbound id)

namespace Spliced

variable (spliced : c.Spliced c' place f)
include spliced

theorem isCurrent {h : Handle} (other : h.entry = place.entry → h.generation ≠ place.generation) :
    c.isCurrent h = c'.isCurrent h := by
  by_cases same : h.entry = place.entry
  · have here := spliced.current
    have gone := spliced.absent
    simp only [Chain.isCurrent,Bool.and_eq_true,decide_eq_true_eq,beq_iff_eq] at here
    have differs : (c.slot place.entry).generation ≠ h.generation := fun equal =>
      other same (equal.symm.trans here.1.2)
    simp [Chain.isCurrent,same,gone,differs]
  · have about := spliced.about h.entry same
    simp only [Slot.about,Prod.mk.injEq] at about
    simp [Chain.isCurrent,about.2.2,spliced.linked h.entry same,spliced.inside h.entry same]

theorem handle {id : EntryId} (other : id ≠ place.entry) (owner : SessionRef) :
    c.handle owner id = c'.handle owner id := by
  have about := spliced.about id other
  simp only [Slot.about,Prod.mk.injEq] at about
  rw [Chain.handle,about.2.2]
  rfl

theorem filter {id : EntryId} (other : id ≠ place.entry) : (c.slot id).filter = (c'.slot id).filter :=
  congrArg (·.2.1) (spliced.about id other)

theorem handle_place {owner : SessionRef} (owned : place.owner = owner) :
    c.handle owner place.entry = place := by
  have here := spliced.current
  simp only [Chain.isCurrent,Bool.and_eq_true,beq_iff_eq] at here
  obtain ⟨_,_,_⟩ := place
  simp_all [Chain.handle]

theorem ne_exit (outbound : Bool) : place.entry ≠ exit outbound := by
  cases outbound
  · exact spliced.between.2
  · exact spliced.between.1

/-- A current handle of another entry is on the way in both. -/
theorem way_of_current {h : Handle} (current : c'.isCurrent h = true) (outbound : Bool) :
    c'.following outbound h.entry ≠ place.entry ∧
      (c.following outbound h.entry = c'.following outbound h.entry ∨
        c.following outbound h.entry = place.entry ∧
          c.following outbound place.entry = c'.following outbound h.entry) := by
  simp only [Chain.isCurrent,Bool.and_eq_true] at current
  exact spliced.way h.entry current.2 outbound

end Spliced

/-- The slots that are linked are the chain's entries and its two ends. -/
theorem Holds.listed (holds : c.Holds ids flight) {id : EntryId} (linked : (c.slot id).linked = true) :
    id ∈ head :: (ids ++ [tail]) := by
  have member := (holds.flags id).mp linked
  simp only [List.mem_cons,List.mem_append] at member ⊢
  rcases member with first | last | inner
  · exact .inl first
  · exact .inr (.inr (.inl last))
  · exact .inr (.inl inner)

/-- Every place but the last is on the way. -/
theorem ahead_of_mem {id : EntryId} {outbound : Bool} (listed : id ∈ head :: (ids ++ [tail]))
    (inside : id ≠ exit outbound) : id ∈ entrance outbound :: (if outbound then ids.reverse else ids) := by
  simp only [List.mem_cons,List.mem_append] at listed
  rcases listed with rfl | inner | rfl | none
  · cases outbound with
    | false => exact List.mem_cons_self
    | true => exact absurd rfl inside
  · cases outbound with
    | false => exact List.mem_cons_of_mem _ inner
    | true => exact List.mem_cons_of_mem _ (List.mem_reverse.mpr inner)
  · cases outbound with
    | false => exact absurd rfl inside
    | true => exact List.mem_cons_self
  · cases none

theorem mem_of_ahead {id : EntryId} {outbound : Bool}
    (ahead : id ∈ entrance outbound :: (if outbound then ids.reverse else ids)) :
    id ∈ head :: (ids ++ [tail]) := by
  cases outbound with
  | false => exact List.mem_append_left [tail] ahead
  | true =>
    rcases List.mem_cons.mp ahead with rfl | inner
    · simp [entrance]
    · simp [List.mem_reverse.mp inner]

/-- From a linked slot the way leads to an entry or out of the chain. -/
theorem Holds.following_mem (holds : c.Holds ids flight) {id : EntryId}
    (linked : (c.slot id).linked = true) (outbound : Bool) :
    c.following outbound id ∈ head :: (ids ++ [tail]) := by
  have leaves : exit outbound ∈ head :: (ids ++ [tail]) := by cases outbound <;> simp [exit]
  by_cases last : id = exit outbound
  · have stays : c.following outbound id = exit outbound := by
      subst last
      cases outbound with
      | false => simp [following,exit,holds.outer.2]
      | true => simp [following,exit,holds.outer.1]
    rwa [stays]
  · obtain ⟨before,after,split⟩ := List.append_of_mem (ahead_of_mem (holds.listed linked) last)
    cases after with
    | nil => rwa [Effect.following_exit holds split]
    | cons next after =>
      rw [(Effect.following_entry holds split).1]
      exact mem_of_ahead (by rw [split]; simp)

variable {name : String} {position : Position}

theorem inside_allocate {id : EntryId} (other : id ≠ (c.allocate name f).1) :
    id < (c.allocate name f).2.slots.size ↔ id < c.slots.size := by
  unfold allocate at other ⊢
  split
  · simp
  · rename_i empty
    have beyond : id ≠ c.slots.size := by simpa only [empty] using other
    rw [Array.size_push,Nat.lt_succ_iff_lt_or_eq,or_iff_left beyond]

/-- Behind the earlier neighbour of an inserted entry the way leads to it and from it to the later one, and
the same in the other direction; elsewhere it leads as before. -/
theorem Holds.insert_way {x id : EntryId} (holds : c.Holds ids (x :: flight))
    (admissible : c.checkAddition name position = .ok ()) (listed : id ∈ head :: (ids ++ [tail]))
    (outbound : Bool) : (c.insert x name position).following outbound id = c.following outbound id ∨
      (c.insert x name position).following outbound id = x ∧
        (c.insert x name position).following outbound x = c.following outbound id := by
  have inserted := holds.insert_slot admissible
  have outside := holds.flight_apart (List.mem_cons_self (a := x))
  obtain ⟨before,after,left,right,path,_,first,last⟩ := holds.neighbours admissible
  have links := holds.links
  generalize c.neighbours position = pair at inserted first last
  obtain ⟨prev,next⟩ := pair
  rw [path,path_cut first last] at links outside
  obtain ⟨leads,leadsBack⟩ := (List.isChain_append_cons_cons.mp links).2.1
  have old : id ≠ x := fun equal => holds.flight_apart List.mem_cons_self (equal ▸ listed)
  simp only [List.mem_append,List.mem_cons,not_or] at outside
  cases outbound with
  | false =>
    by_cases meets : id = prev
    · subst meets
      exact .inr (by simp [following,inserted,leads,old.symm])
    · exact .inl (by simp [following,inserted,meets,old])
  | true =>
    by_cases meets : id = next
    · subst meets
      exact .inr (by simp [following,inserted,leadsBack,old.symm])
    · exact .inl (by simp [following,inserted,meets,old])

/-- An entry that is added is spliced in. -/
theorem Holds.spliced (holds : c.Holds ids flight) (owner : SessionRef)
    (admissible : c.checkAddition name position = .ok ()) :
    ((c.allocate name f).2.insert (c.allocate name f).1 name position).Spliced c
      (c.reserved owner name f) f := by
  have current : Chain.isCurrent _ (c.reserved owner name f) = true :=
    Effect.linked_isCurrent holds admissible
  obtain ⟨outside,_,new⟩ := holds.allocate_slot name f
  have allocated := holds.allocate name f
  rw [← Effect.allocate_checkAddition c name name f position] at admissible
  have inserted := allocated.insert_slot admissible
  have same {id : EntryId} (other : id ≠ (c.allocate name f).1) :
      (c.allocate name f).2.slot id = c.slot id := allocate_slot_of_ne c other
  refine ⟨current,?holder,?absent,?between,?about,?linked,?inside,?way⟩
  case holder => exact (congrArg Slot.filter (inserted _)).trans (congrArg Slot.filter new)
  case absent => exact holds.unlinked outside
  case between =>
    simp only [List.mem_cons,List.mem_append,not_or] at outside
    exact ⟨outside.1,outside.2.2.1⟩
  case about =>
    intro id other
    rw [inserted id,same other]
    rfl
  case linked =>
    intro id other
    have differs : (id = (c.allocate name f).1) = False := eq_false other
    rw [inserted id,same other]
    simp [differs]
  case inside =>
    intro id other
    rw [size_insert]
    exact inside_allocate other
  case way =>
    intro id linked outbound
    have old : id ≠ (c.allocate name f).1 := fun equal => by
      rw [equal,holds.unlinked outside] at linked
      cases linked
    have before : (c.allocate name f).2.following outbound id = c.following outbound id := by
      rw [following_eq,following_eq,same old]
    have way := allocated.insert_way admissible (holds.listed linked) outbound
    rw [before] at way
    exact ⟨fun equal : _ = (c.allocate name f).1 =>
      outside (equal ▸ holds.following_mem linked outbound),way⟩

end SessionPipeline.Chain
