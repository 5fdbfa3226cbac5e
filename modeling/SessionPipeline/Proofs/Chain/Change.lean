import Mathlib.Data.List.Nodup
import SessionPipeline.Proofs.Chain.Course

/-! What a single move changes, seen from outside: the route through each chain, as handles, and the
mark of each slot, that is, its generation and whether it is linked. A move leaves all of that alone
or frees, links or unlinks exactly one entry. -/
namespace SessionPipeline

namespace Chain

def mark (c : Chain) (id : EntryId) : UInt32 × Bool := ((c.slot id).generation,(c.slot id).linked)

/-- The handles of the entries from head to tail. -/
def route (c : Chain) (owner : SessionRef) : List Handle := c.forwards.map (c.handle owner)

variable {c c' : Chain} {ids flight : List EntryId} {owner : SessionRef} {id : EntryId}

theorem Holds.route_eq (holds : c.Holds ids flight) (owner : SessionRef) :
    c.route owner = ids.map (c.handle owner) := by
  rw [route,holds.forwards_eq]

theorem map_handle_congr (same : ∀ id ∈ ids, (c'.slot id).generation = (c.slot id).generation) :
    ids.map (c'.handle owner) = ids.map (c.handle owner) :=
  List.map_congr_left fun id member => by rw [handle,handle,same id member]

/-- Edits that leave the list and the marks alone leave the route alone. -/
theorem Holds.route_same (holds : c.Holds ids flight) {flight' : List EntryId}
    (holds' : c'.Holds ids flight') (marks : ∀ id, c'.mark id = c.mark id) :
    c'.route owner = c.route owner := by
  rw [holds.route_eq,holds'.route_eq]
  exact map_handle_congr fun id _ => congrArg Prod.fst (marks id)

theorem Holds.allocate_mark (holds : c.Holds ids flight) (name : String) (filter : FilterId)
    (x : EntryId) : (c.allocate name filter).2.mark x = c.mark x := by
  obtain ⟨outside,_,new⟩ := holds.allocate_slot name filter
  by_cases same : x = (c.allocate name filter).1
  · rw [same,mark,mark,new,holds.unlinked outside]
  · rw [mark,mark,allocate_slot_of_ne c same]

theorem slot_outside (outside : c.slots.size ≤ id) : c.slot id = {} := by
  rw [slot,Array.getD_eq_getD_getElem?,Array.getElem?_eq_none outside,Option.getD_none]

theorem setFilter_mark (c : Chain) (id : EntryId) (filter : FilterId) (x : EntryId) :
    (c.setFilter id filter).mark x = c.mark x := by
  rw [mark,mark,setFilter_slot]
  split <;> rfl

theorem Holds.release_mark (holds : c.Holds ids (id :: flight)) (x : EntryId) :
    (c.release id).mark x = if x = id then ((c.slot id).generation+1,false) else c.mark x := by
  split
  next same => rw [same,mark,release_slot (holds.flight_inside List.mem_cons_self)]
  next other => rw [mark,mark,release_slot_of_ne other]

theorem Holds.insert_mark (holds : c.Holds ids (id :: flight)) {name : String} {position : Position}
    (admissible : c.checkAddition name position = .ok ()) (x : EntryId) :
    (c.insert id name position).mark x =
      if x = id then ((c.slot id).generation,true) else c.mark x := by
  rw [mark,holds.insert_slot admissible x]
  by_cases same : x = id
  · simp [same]
  · simp [same,mark]

theorem Holds.drop_mark (holds : c.Holds ids flight) (member : id ∈ ids) (name : String) (x : EntryId) :
    (c.drop id name).mark x = if x = id then ((c.slot id).generation+1,false) else c.mark x := by
  obtain ⟨first,last,rfl⟩ := List.append_of_mem member
  obtain ⟨left,prev,next,right,_,_,path⟩ := path_around first last id
  rw [mark,holds.drop_slot path name x]
  split
  next => rfl
  next => rfl

/-- A slot in flight is not linked. -/
theorem Holds.flight_mark (holds : c.Holds ids (id :: flight)) :
    c.mark id = ((c.slot id).generation,false) := by
  rw [mark,holds.unlinked (holds.flight_apart List.mem_cons_self)]

theorem Holds.allocate_route (holds : c.Holds ids flight) (owner : SessionRef) (name : String)
    (filter : FilterId) : (c.allocate name filter).2.route owner = c.route owner :=
  holds.route_same (holds.allocate name filter) (holds.allocate_mark name filter)

theorem Holds.setFilter_route (holds : c.Holds ids flight) (owner : SessionRef)
    (linked : (c.slot id).linked = true) (filter : FilterId) :
    (c.setFilter id filter).route owner = c.route owner :=
  holds.route_same (holds.setFilter linked filter) (setFilter_mark c id filter)

theorem Holds.release_route (holds : c.Holds ids (id :: flight)) (owner : SessionRef) :
    (c.release id).route owner = c.route owner := by
  rw [holds.route_eq,holds.release.route_eq]
  refine map_handle_congr fun x member => ?_
  have other : x ≠ id := fun same =>
    holds.flight_apart List.mem_cons_self (by simp [← same,member])
  rw [release_slot_of_ne other]

theorem Holds.insert_route (holds : c.Holds ids (id :: flight)) (owner : SessionRef) {name : String}
    {position : Position}
    (admissible : c.checkAddition name position = .ok ()) (named : (c.slot id).name = name)
    (filled : (c.slot id).filter.isSome) :
    ∃ left right, c.route owner = left ++ right ∧
      (c.insert id name position).route owner = left ++ c.handle owner id :: right := by
  obtain ⟨before,after,rfl,_,holds'⟩ := holds.insert admissible named filled
  have generation (x : EntryId) : ((c.insert id name position).slot x).generation =
      (c.slot x).generation := by rw [holds.insert_slot admissible x]
  refine ⟨before.map (c.handle owner),after.map (c.handle owner),?_,?_⟩
  · rw [holds.route_eq,List.map_append]
  · rw [holds'.route_eq,map_handle_congr fun x _ => generation x]
    simp

theorem Holds.drop_route (holds : c.Holds ids flight) (owner : SessionRef) (member : id ∈ ids) :
    ∃ left right, c.route owner = left ++ c.handle owner id :: right ∧
      (c.drop id (c.slot id).name).route owner = left ++ right := by
  obtain ⟨before,after,rfl,holds'⟩ := holds.drop member
  refine ⟨before.map (c.handle owner),after.map (c.handle owner),?_,?_⟩
  · simp [holds.route_eq]
  · rw [holds'.route_eq,← List.map_append]
    refine map_handle_congr fun x within => ?_
    have apart := List.nodup_cons.mp (List.perm_middle.nodup_iff.mp holds.ids_nodup)
    have other : x ≠ id := fun same => apart.1 (same ▸ within)
    exact congrArg Prod.fst ((holds.drop_mark member _ x).trans (if_neg other))

theorem isCurrent_iff (c : Chain) (h : Handle) :
    c.isCurrent h = true ↔ c.mark h.entry = (h.generation,true) := by
  constructor
  · intro current
    simp only [isCurrent,Bool.and_eq_true,beq_iff_eq] at current
    rw [mark,current.1.2,current.2]
  · intro marked
    obtain ⟨generation,linked⟩ := Prod.mk.inj marked
    have inside : h.entry < c.slots.size := by
      by_contra outside
      simp [slot,outside] at linked
    simp [isCurrent,inside,generation,linked]

/-- The current handles are those on the route, and those of its two ends. -/
theorem Holds.mem_route (holds : c.Holds ids flight) {h : Handle} (owned : h.owner = owner)
    (head : h.entry ≠ head) (tail : h.entry ≠ tail) : h ∈ c.route owner ↔ c.isCurrent h = true := by
  rw [holds.route_eq,List.mem_map,isCurrent_iff]
  constructor
  · rintro ⟨id,member,rfl⟩
    have linked := (holds.flags id).mpr (by simp [member])
    rw [mark,handle,linked]
  · intro marked
    obtain ⟨generation,linked⟩ := Prod.mk.inj marked
    refine ⟨h.entry,?_,?_⟩
    · have member := (holds.flags h.entry).mp linked
      simpa [head,tail] using member
    · rw [handle,generation,← owned]

theorem Holds.route_nodup (holds : c.Holds ids flight) (owner : SessionRef) :
    (c.route owner).Nodup := by
  rw [holds.route_eq]
  exact List.Nodup.map (fun a b same => congrArg Handle.entry same) holds.ids_nodup

theorem Holds.route_entry (holds : c.Holds ids flight) {h : Handle} (member : h ∈ c.route owner) :
    h.owner = owner ∧ h.entry ≠ head ∧ h.entry ≠ tail := by
  rw [holds.route_eq,List.mem_map] at member
  obtain ⟨id,inside,rfl⟩ := member
  have apart := holds.path_nodup
  simp only [List.nodup_cons,List.nodup_append,List.mem_append] at apart
  exact ⟨rfl,by grind [handle],by grind [handle]⟩

end Chain

namespace World

variable {σ : Type} {w w' : World σ} {h : Handle} {terms : Terms}

def mark (w : World σ) (ref : SessionRef) (id : EntryId) : UInt32 × Bool := (w.store.chain ref).mark id

def route (w : World σ) (ref : SessionRef) : List Handle := (w.store.chain ref).route ref

theorem isAttached_iff : w.store.isAttached h = true ↔ w.mark h.owner h.entry = (h.generation,true) :=
  Chain.isCurrent_iff _ h

/-- The mark of the slot of one handle is another, all others are as before. -/
def Marks (w w' : World σ) (h : Handle) (generation : UInt32) (linked : Bool) : Prop :=
  ∀ ref id, w'.mark ref id =
    if ref = h.owner ∧ id = h.entry then (generation,linked) else w.mark ref id

theorem attached_congr {h : Handle} (mark : w'.mark h.owner h.entry = w.mark h.owner h.entry) :
    w'.store.isAttached h = w.store.isAttached h := by
  rw [Bool.eq_iff_iff,isAttached_iff,isAttached_iff,mark]

/-- Which handles of a slot are attached, by its mark. -/
theorem attached_of_mark {h g : Handle} {generation : UInt32} {linked : Bool}
    (marked : w.mark h.owner h.entry = (generation,linked))
    (same : g.owner = h.owner ∧ g.entry = h.entry) :
    w.store.isAttached g = (linked && generation == g.generation) := by
  rw [Bool.eq_iff_iff,isAttached_iff,same.1,same.2,marked,Bool.and_eq_true,beq_iff_eq,Prod.mk.injEq]
  exact and_comm

theorem Marks.attached {h : Handle} {generation : UInt32} {linked : Bool}
    (mark : w.Marks w' h generation linked) (g : Handle) : w'.store.isAttached g =
      if g.owner = h.owner ∧ g.entry = h.entry then linked && generation == g.generation
      else w.store.isAttached g := by
  split
  next same => exact attached_of_mark ((mark _ _).trans (if_pos ⟨rfl,rfl⟩)) same
  next other => exact attached_congr ((mark _ _).trans (if_neg other))

/-- What may be different behind a move. -/
inductive Change (w w' : World σ) : Prop
  | idle (route : ∀ ref, w'.route ref = w.route ref) (mark : ∀ ref id, w'.mark ref id = w.mark ref id)
      {news : List Observation} (journal : w'.store.journal = news ++ w.store.journal)
      (told : (∀ o ∈ news, o.still = true) ∨ ∃ handle ref event,
        (w.store.chain handle.owner).isCurrent handle = true ∧
        news = [Effect.passing (w.store.chain handle.owner) handle ref event])
  | discarded (h : Handle) (route : ∀ ref, w'.route ref = w.route ref)
      (before : w.mark h.owner h.entry = (h.generation,false))
      (mark : w.Marks w' h (h.generation+1) false)
      (journal : w'.store.journal = .discarded h :: w.store.journal)
  | linked (h : Handle) (elsewhere : ∀ ref, ref ≠ h.owner → w'.route ref = w.route ref)
      {left right : List Handle} (route : w.route h.owner = left ++ right)
      (route' : w'.route h.owner = left ++ h :: right)
      (before : w.mark h.owner h.entry = (h.generation,false))
      (mark : w.Marks w' h h.generation true)
      (journal : w'.store.journal = .linked h :: w.store.journal)
  | unlinked (h : Handle) (elsewhere : ∀ ref, ref ≠ h.owner → w'.route ref = w.route ref)
      {left right : List Handle} (route : w.route h.owner = left ++ h :: right)
      (route' : w'.route h.owner = left ++ right)
      (before : w.mark h.owner h.entry = (h.generation,true))
      (mark : w.Marks w' h (h.generation+1) false)
      (journal : w'.store.journal = .unlinked h :: w.store.journal)

theorem route_edit {ref : SessionRef} (present : ref < w.store.sessions.size) (change : Chain → Chain)
    (o : Observation) :
    ((w.mapChain ref change).record o).route ref = (change (w.store.chain ref)).route ref :=
  congrArg (Chain.route · ref) (chain_edit present change o)

theorem route_edit_of_ne {ref r : SessionRef} (other : r ≠ ref) (change : Chain → Chain)
    (o : Observation) : ((w.mapChain ref change).record o).route r = w.route r :=
  congrArg (Chain.route · r) (chain_edit_of_ne other change o)

/-- An edit of a chain marks one slot when it does so within that chain. -/
theorem Marks.of_edit {h : Handle} {generation : UInt32} {linked : Bool} {change : Chain → Chain}
    (present : h.owner < w.store.sessions.size) (o : Observation)
    (here : ∀ id, (change (w.store.chain h.owner)).mark id =
      if id = h.entry then (generation,linked) else (w.store.chain h.owner).mark id) :
    w.Marks ((w.mapChain h.owner change).record o) h generation linked := by
  intro ref id
  unfold mark
  by_cases owned : ref = h.owner
  · subst owned
    rw [chain_edit present]
    simpa using here id
  · rw [chain_edit_of_ne owned,if_neg fun both => owned both.1]

theorem ext_handle {g : Handle} (owner : h.owner = g.owner) (entry : h.entry = g.entry)
    (generation : h.generation = g.generation) : h = g := by
  cases h
  cases g
  simp only [Handle.mk.injEq] at *
  exact ⟨owner,entry,generation⟩

theorem handle_of_generation {c : Chain} {h : Handle}
    (generation : (c.slot h.entry).generation = h.generation) : c.handle h.owner h.entry = h := by
  rw [Chain.handle,generation]

theorem reserve_mark {flight : SessionRef → List EntryId} (inOrder : w.InOrder flight)
    {ref : SessionRef} (present : ref < w.store.sessions.size) (name : String) (filter : FilterId)
    (r : SessionRef) (id : EntryId) : (w.reserve ref name filter).mark r id = w.mark r id := by
  unfold mark reserve
  by_cases owned : r = ref
  · subst owned
    obtain ⟨ids,holds⟩ := inOrder r
    rw [chain_mapChain present]
    exact holds.allocate_mark name filter id
  · rw [chain_mapChain_of_ne w owned]

theorem reserve_route {flight : SessionRef → List EntryId} (inOrder : w.InOrder flight)
    {ref : SessionRef} (present : ref < w.store.sessions.size) (name : String) (filter : FilterId)
    (r : SessionRef) : (w.reserve ref name filter).route r = w.route r := by
  unfold route reserve
  by_cases owned : r = ref
  · subst owned
    obtain ⟨ids,holds⟩ := inOrder r
    rw [chain_mapChain present]
    exact holds.allocate_route r name filter
  · rw [chain_mapChain_of_ne w owned]

theorem Moves.change {s s' : Stage σ} (moves : Moves terms s s') (inOrder : s.2.InOrder s.1) :
    s.2.Change s'.2 := by
  cases moves with
  | @step flight w w' once =>
    obtain ⟨news,journal,told⟩ := once.news
    refine .idle (fun ref => ?route) (fun ref id => ?mark) journal told
    case route =>
      obtain ⟨ids,holds⟩ := inOrder ref
      unfold route
      rcases once.chain ref with same | ⟨x,f,linked,swapped⟩
      · rw [same]
      · rw [swapped]
        exact holds.setFilter_route ref linked f
    case mark =>
      unfold World.mark
      rcases once.chain ref with same | ⟨x,f,_,swapped⟩
      · rw [same]
      · rw [swapped,Chain.setFilter_mark]
  | @reserve flight w ref present name filter =>
    exact .idle (reserve_route inOrder present name filter) (reserve_mark inOrder present name filter)
      (List.nil_append _).symm (.inl (by simp))
  | @discard flight w h present generation =>
    have aloft : w.InOrder (flying flight h.owner h.entry) := inOrder
    obtain ⟨ids,holds⟩ := aloft h.owner
    rw [flying_self] at holds
    have before := holds.flight_mark
    have marks (id : EntryId) := holds.release_mark id
    rw [generation] at before marks
    refine .discarded h (fun r => ?_) before (.of_edit present _ marks) rfl
    by_cases owned : r = h.owner
    · rw [owned]
      exact (route_edit present _ _).trans (holds.release_route h.owner)
    · exact route_edit_of_ne owned _ _
  | @link flight w h name position present generation admissible named filled =>
    have aloft : w.InOrder (flying flight h.owner h.entry) := inOrder
    obtain ⟨ids,holds⟩ := aloft h.owner
    rw [flying_self] at holds
    obtain ⟨left,right,route,route'⟩ := holds.insert_route h.owner admissible named filled
    have before := holds.flight_mark
    have marks (id : EntryId) := holds.insert_mark admissible id
    rw [generation] at before marks
    rw [handle_of_generation generation] at route'
    exact .linked h (fun r other => route_edit_of_ne other _ _) route
      ((route_edit present _ _).trans route') before (.of_edit present _ marks) rfl
  | @drop flight w h name present generation between linked named =>
    obtain ⟨ids,holds⟩ := inOrder h.owner
    have member := holds.mem_of_linked linked between
    obtain ⟨left,right,route,route'⟩ := holds.drop_route h.owner member
    have before : w.mark h.owner h.entry = (h.generation,true) := by
      rw [mark,Chain.mark,generation,linked]
    have marks (id : EntryId) := holds.drop_mark member name id
    rw [generation] at marks
    rw [handle_of_generation generation] at route
    rw [named] at route'
    exact .unlinked h (fun r other => route_edit_of_ne other _ _) route
      ((route_edit present _ _).trans route') before (.of_edit present _ marks) rfl

/-- An edit that frees a slot is counted there and nowhere else. -/
theorem releases_freed {h : Handle} {o : Observation}
    (journal : w'.store.journal = o :: w.store.journal)
    (frees : ∀ ref id, o.frees ref id = (h.owner == ref && h.entry == id)) (ref : SessionRef)
    (id : EntryId) : w'.store.releases ref id =
      if ref = h.owner ∧ id = h.entry then w.store.releases ref id + 1 else w.store.releases ref id := by
  rw [Store.releases,journal,List.countP_cons,frees]
  simp only [Bool.and_eq_true,beq_iff_eq,eq_comm (a := h.owner),eq_comm (a := h.entry)]
  split <;> rfl

theorem releases_linked {h : Handle} (journal : w'.store.journal = .linked h :: w.store.journal) :
    w'.store.releases = w.store.releases := by
  funext ref id
  rw [Store.releases,journal]
  exact List.countP_cons_of_neg Bool.false_ne_true

/-- The generation of a slot is the number of times that it has been freed, but for wrapping. -/
def Counts (w : World σ) : Prop :=
  ∀ ref id, (w.mark ref id).1 = UInt32.ofNat (w.store.releases ref id)

theorem fresh_counts (own : σ) : ({ own := own } : World σ).Counts := by
  intro ref id
  have marked : ({ own := own } : World σ).mark ref id = Chain.empty.mark id :=
    congrArg (Chain.mark · id) (chain_absent (Nat.not_lt_zero ref))
  rw [marked]
  rcases id with _ | _ | id
  · rfl
  · rfl
  · simp [Chain.mark,Chain.slot,Chain.empty,Store.releases]

theorem Counts.freed {h : Handle} {o : Observation} {linked : Bool} (counts : w.Counts)
    (before : w.mark h.owner h.entry = (h.generation,linked))
    (mark : w.Marks w' h (h.generation+1) false) (journal : w'.store.journal = o :: w.store.journal)
    (frees : ∀ ref id, o.frees ref id = (h.owner == ref && h.entry == id)) : w'.Counts := by
  intro ref id
  rw [mark ref id,releases_freed journal frees]
  split
  next same =>
    rw [same.1,same.2,UInt32.ofNat_add,← counts h.owner h.entry,before]
    rfl
  next => exact counts ref id

theorem Change.counts (change : w.Change w') (counts : w.Counts) : w'.Counts := by
  cases change with
  | idle route mark journal told =>
    intro ref id
    rw [mark,releases_of_news journal told]
    exact counts ref id
  | discarded h route before mark journal => exact counts.freed before mark journal fun _ _ => rfl
  | linked h elsewhere route route' before mark journal =>
    intro ref id
    rw [mark ref id,releases_linked journal]
    split
    next same =>
      rw [← counts ref id,same.1,same.2,before]
    next => exact counts ref id
  | unlinked h elsewhere route route' before mark journal =>
    exact counts.freed before mark journal fun _ _ => rfl

theorem Course.counts {s s' : Stage σ} (course : Course terms s s') (inOrder : s.2.InOrder s.1)
    (counts : s.2.Counts) : s'.2.Counts := by
  induction course with
  | refl => exact counts
  | tail before moves ih => exact (moves.change (Course.inOrder before inOrder)).counts ih

/-- The generation of a slot is that number, as long as it is small. -/
theorem Counts.toNat_eq {h : Handle} {linked : Bool} (counts : w.Counts)
    (marked : w.mark h.owner h.entry = (h.generation,linked))
    (sparing : w.store.releases h.owner h.entry < 2^32) :
    h.generation.toNat = w.store.releases h.owner h.entry := by
  have counted : h.generation = UInt32.ofNat _ := (congrArg Prod.fst marked).symm.trans (counts _ _)
  rw [counted,UInt32.toNat_ofNat']
  exact Nat.mod_eq_of_lt sparing

end World
end SessionPipeline
