import SessionPipeline.Proofs.Chain.Arena
import SessionPipeline.Proofs.Effect.Evolution

/-! The head of a chain, which no edit touches, however edits come about and whatever slots they are
told to be of. What an edit needs for that is a slot other than the head. -/
namespace SessionPipeline.Chain

/-- The head is linked as it always was, no slot leads back to it, and it is neither free nor named. -/
structure Headed (c : Chain) : Prop where
  inside : head < c.slots.size
  linked : (c.slot head).linked = true
  first : (c.slot head).generation = 0
  apart : ∀ id, (c.slot id).next ≠ some head
  taken : head ∉ c.free
  unnamed : ∀ entry ∈ c.index, entry.2 ≠ head

variable {c : Chain} {id : EntryId}

theorem empty_headed : empty.Headed where
  inside := by decide
  linked := rfl
  first := rfl
  apart id := by
    rcases id with _ | _ | id <;> simp [slot,empty,head,tail]
  taken := by simp [empty]
  unnamed entry member := by simp [empty] at member

theorem Headed.isCurrent (headed : c.Headed) (owner : SessionRef) : c.isCurrent ⟨owner,head,0⟩ = true := by
  simp [Chain.isCurrent,headed.inside,headed.linked,headed.first]

theorem Headed.getD_apart (headed : c.Headed) (id : EntryId) : (c.slot id).next.getD tail ≠ head := by
  cases next : (c.slot id).next with
  | none => decide
  | some other =>
    intro same
    apply headed.apart id
    rw [next]
    exact congrArg some same

/-- An inbound event never comes back to the head. -/
theorem Headed.following (headed : c.Headed) (id : EntryId) : c.following false id ≠ head :=
  headed.getD_apart id

theorem Headed.modify (headed : c.Headed) (id : EntryId) (change : Slot → Slot)
    (keeps : id = head →
      (change (c.slot id)).linked = true ∧ (change (c.slot id)).generation = 0)
    (apart : (change (c.slot id)).next ≠ some head) : (c.modify id change).Headed := by
  have kept : ((c.modify id change).slot head).linked = true ∧
      ((c.modify id change).slot head).generation = 0 := by
    rw [slot_modify]
    split
    · rename_i both
      obtain ⟨rfl,_⟩ := both
      exact keeps rfl
    · exact ⟨headed.linked,headed.first⟩
  refine ⟨by simpa using headed.inside,kept.1,kept.2,?_,headed.taken,headed.unnamed⟩
  intro x
  rw [slot_modify]
  split
  · rename_i both
    obtain ⟨rfl,_⟩ := both
    exact apart
  · exact headed.apart x

/-- What a slot other than the head is told to lead to. -/
theorem Headed.modify_of_ne (headed : c.Headed) (other : id ≠ head) (change : Slot → Slot)
    (apart : (change (c.slot id)).next ≠ some head) : (c.modify id change).Headed :=
  headed.modify id change (fun same => absurd same other) apart

theorem Headed.setPrev (headed : c.Headed) (id : EntryId) (prev : Option EntryId) :
    (c.modify id fun s => { s with prev := prev }).Headed := by
  apply headed.modify
  · rintro rfl
    exact ⟨headed.linked,headed.first⟩
  · exact headed.apart id

theorem Headed.setNext (headed : c.Headed) (id : EntryId) (next : Option EntryId)
    (other : next ≠ some head) : (c.modify id fun s => { s with next := next }).Headed := by
  apply headed.modify
  · rintro rfl
    exact ⟨headed.linked,headed.first⟩
  · exact other

theorem Headed.setFilter (headed : c.Headed) (id : EntryId) (filter : FilterId) :
    (c.setFilter id filter).Headed := by
  apply headed.modify
  · rintro rfl
    exact ⟨headed.linked,headed.first⟩
  · exact headed.apart id

theorem Headed.find?_ne (headed : c.Headed) {name : String} (found : c.find? name = some id) :
    id ≠ head := headed.unnamed _ (mem_of_lookup found)

theorem Headed.forwards_ne (headed : c.Headed) (member : id ∈ c.forwards) : id ≠ head := by
  unfold forwards at member
  have apart := headed.apart head
  generalize (c.slot head).next = start at member apart
  generalize c.slots.size = fuel at member
  induction fuel generalizing start with
  | zero => simp [walk] at member
  | succ fuel ih =>
    cases start with
    | none => simp [walk] at member
    | some other =>
      rw [walk] at member
      split at member
      · simp at member
      · rcases List.mem_cons.mp member with rfl | later
        · exact fun same => apart (congrArg some same)
        · exact ih _ (headed.apart other) later

/-- However an entry is picked, it is not the head. -/
theorem Headed.picks_ne (headed : c.Headed) (picked : c.Picks id) : id ≠ head := by
  cases picked with
  | named found => exact headed.find?_ne found
  | holding found => exact headed.forwards_ne (List.mem_of_find?_eq_some found)
  | first found =>
    rintro rfl
    exact headed.apart head found

theorem Headed.push (headed : c.Headed) {s : Slot} (apart : s.next ≠ some head) :
    Headed { c with slots := c.slots.push s } := by
  have same : Chain.slot { c with slots := c.slots.push s } head = c.slot head := by
    simp [slot,Array.getElem?_push,Nat.ne_of_lt headed.inside]
  refine ⟨?_,same ▸ headed.linked,same ▸ headed.first,?_,headed.taken,headed.unnamed⟩
  · simpa using Nat.lt_succ_of_lt headed.inside
  · intro x
    simp only [slot,Array.getD_eq_getD_getElem?,Array.getElem?_push]
    split
    · exact apart
    · simpa [slot] using headed.apart x

theorem Headed.allocate (headed : c.Headed) (name : String) (filter : FilterId) :
    (c.allocate name filter).1 ≠ head ∧ (c.allocate name filter).2.Headed := by
  unfold Chain.allocate
  cases free : c.free with
  | nil =>
    have pushed := headed.push (s := { name := name, filter := some filter }) (by simp)
    rw [free] at pushed
    exact ⟨Nat.ne_of_gt headed.inside,pushed⟩
  | cons id rest =>
    have taken := headed.taken
    rw [free,List.mem_cons,not_or] at taken
    have modified := headed.modify_of_ne (Ne.symm taken.1) (fun s =>
      { s with name := name, filter := some filter, prev := none, next := none, linked := false })
      (by simp)
    exact ⟨Ne.symm taken.1,modified.inside,modified.linked,modified.first,modified.apart,taken.2,
      modified.unnamed⟩

theorem Headed.release (headed : c.Headed) (other : id ≠ head) : (c.release id).Headed := by
  have modified := headed.modify_of_ne other
    (fun s => { generation := s.generation + 1 }) (by simp)
  refine ⟨modified.inside,modified.linked,modified.first,modified.apart,?_,modified.unnamed⟩
  intro member
  rcases List.mem_cons.mp member with same | member
  · exact other same.symm
  · exact headed.taken member

theorem Headed.unlink (headed : c.Headed) (other : id ≠ head) : (c.unlink id).Headed := by
  have before (prev : EntryId) : (c.modify prev fun p => { p with next := (c.slot id).next }).Headed :=
    headed.setNext _ _ (headed.apart id)
  have marked {d : Chain} (around : d.Headed) :
      (d.modify id fun s => { s with linked := false }).Headed :=
    around.modify_of_ne other _ (around.apart id)
  unfold Chain.unlink
  apply marked
  split
  · split
    · exact (before _).setPrev _ _
    · exact headed.setPrev _ _
  · split
    · exact before _
    · exact headed

theorem Headed.drop (headed : c.Headed) (other : id ≠ head) (name : String) :
    (c.drop id name).Headed := by
  have unlinked := headed.unlink other
  have filtered : Headed { c.unlink id with index := (c.unlink id).index.filter (·.1 != name) } :=
    ⟨unlinked.inside,unlinked.linked,unlinked.first,unlinked.apart,unlinked.taken,
      fun entry member => unlinked.unnamed entry (List.mem_filter.mp member).1⟩
  exact filtered.release other

theorem Headed.neighbours_ne (headed : c.Headed) (position : Position) :
    (c.neighbours position).2 ≠ head := by
  cases position with
  | first => exact headed.getD_apart head
  | last => simp [neighbours,head,tail]
  | before base =>
    change (c.find? base).getD tail ≠ head
    cases found : c.find? base with
    | none => decide
    | some id => exact headed.find?_ne found
  | after base => exact headed.getD_apart _

theorem Headed.insert (headed : c.Headed) (other : id ≠ head) (name : String) (position : Position) :
    (c.insert id name position).Headed := by
  have placed := headed.modify_of_ne other (fun s =>
    { s with prev := some (c.neighbours position).1, next := some (c.neighbours position).2,
             linked := true })
    fun same => headed.neighbours_ne position (Option.some.inj same)
  have led := placed.setNext (c.neighbours position).1 (some id)
    fun same => other (Option.some.inj same)
  have linked := led.setPrev (c.neighbours position).2 (some id)
  refine ⟨linked.inside,linked.linked,linked.first,linked.apart,linked.taken,?_⟩
  intro entry member
  rcases List.mem_cons.mp member with rfl | member
  · exact other
  · exact linked.unnamed entry member

end SessionPipeline.Chain
