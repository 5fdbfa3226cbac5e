import SessionPipeline.Proofs.Chain.Refusal
import SessionPipeline.Proofs.Effect.Settling

/-! A template and a chain whose filters' hooks do nothing come to the same. A template is a list that
is searched, a chain an arena with an index; whatever is edited, they accept and refuse the same edits
with the same replies and tell the same afterwards. -/
namespace SessionPipeline

/-- What a template and a chain can both be asked to do. -/
inductive Edit
  | add (position : Position) (name : String) (filter : Option FilterId)
  | remove (name : String)
  | replace (name : String) (filter : Option FilterId)
  | clear
  deriving DecidableEq, Repr

namespace Edit

/-- The filter that an edit brings in. -/
def brings : Edit → Option FilterId
  | add _ _ filter | replace _ filter => filter
  | _ => none

def call (ref : SessionRef) : Edit → Call
  | add position name filter => .add ref position name filter
  | remove name => .remove ref name
  | replace name filter => .replace ref name filter
  | clear => .clear ref

end Edit

def Slot.row (s : Slot) : String × Option FilterId := (s.name,s.filter)

namespace Template

/-- What a template becomes by an edit and the filter that it gives back. -/
def edit (t : Template) : Edit → Except Failure (Reply × Template)
  | .add position name filter => return (.unit,← t.add position name filter)
  | .remove name => do
    let (old,left) ← t.remove name
    return (.filter (some old),left)
  | .replace name filter => do
    let (old,left) ← t.replace name filter
    return (.filter (some old),left)
  | .clear => return (.unit,t.clear)

/-- A refused edit leaves a template as it was. -/
def after (t : Template) (e : Edit) : Except Failure Reply × Template :=
  match t.edit e with
  | .ok (reply,left) => (.ok reply,left)
  | .error failure => (.error failure,t)

/-- The replies to edits one after the other, each with the template that it leaves. -/
def course (t : Template) : List Edit → List (Except Failure Reply × Template)
  | [] => []
  | e :: rest => t.after e :: (t.after e).2.course rest

def row (e : String × FilterId) : String × Option FilterId := (e.1,some e.2)

/-- A template and a chain tell the same. -/
structure Alike (t : Template) (ref : SessionRef) (c : Chain) : Prop where
  getAll : (c.getAll ref).map (fun e => (e.name,e.filter)) = t.entries.map row
  contains : ∀ name, c.contains name = t.contains name
  get : ∀ name, c.get name = ((t.get? name).map some).elim (.error (.nameNotFound name)) .ok
  size : c.size = t.size
  isEmpty : c.isEmpty = t.isEmpty
  toString : ∀ label, c.toString label = t.toString label

/-- The entries of a chain in order, with `ids` linked and `flight` on their way, are the template's. -/
structure Shown (t : Template) (c : Chain) (ids flight : List EntryId) : Prop where
  holds : c.Holds ids flight
  rows : ids.map (fun id => (c.slot id).row) = t.entries.map row

variable {t : Template} {c c' : Chain} {ids flight : List EntryId} {name base : String}
  {filter : FilterId} {position : Position}

theorem after_ok {e : Edit} {reply : Reply} {left : Template} (edited : t.edit e = .ok (reply,left)) :
    t.after e = (.ok reply,left) := by
  rw [after,edited]

theorem after_error {e : Edit} {failure : Failure} (refused : t.edit e = .error failure) :
    t.after e = (.error failure,t) := by
  rw [after,refused]

theorem insertBefore_perm (base : String) (entry : String × FilterId)
    (entries : List (String × FilterId)) : (insertBefore base entry entries).Perm (entry :: entries) := by
  induction entries with
  | nil => exact .refl _
  | cons e rest ih =>
    rw [insertBefore]
    split
    · exact .refl _
    · exact (ih.cons e).trans (.swap entry e rest)

theorem insertAfter_perm (base : String) (entry : String × FilterId)
    (entries : List (String × FilterId)) : (insertAfter base entry entries).Perm (entry :: entries) := by
  induction entries with
  | nil => exact .refl _
  | cons e rest ih =>
    rw [insertAfter]
    split
    · exact .swap entry e rest
    · exact (ih.cons e).trans (.swap entry e rest)

/-- Wherever an entry is put, it is one more. -/
theorem insertAt_perm (position : Position) (entry : String × FilterId)
    (entries : List (String × FilterId)) : (insertAt position entry entries).Perm (entry :: entries) := by
  cases position with
  | first => exact .refl _
  | last => exact List.perm_append_singleton entry entries
  | before base => exact insertBefore_perm base entry entries
  | after base => exact insertAfter_perm base entry entries

theorem length_add {position : Position} {name : String} {filter? : Option FilterId} {left : Template}
    (added : t.add position name filter? = .ok left) : left.entries.length = t.entries.length + 1 := by
  cases filter? with
  | none => cases added
  | some filter =>
    rw [Template.add] at added
    cases taken : t.contains name <;> cases based : t.checkBase position <;>
      simp [needFilter,taken,based,bind,Except.bind,throw,throwThe,MonadExceptOf.throw,pure,
        Except.pure] at added
    rw [← added]
    simpa using (insertAt_perm position (name,filter) t.entries).length_eq

theorem length_remove {old : FilterId} {left : Template} (removed : t.remove name = .ok (old,left)) :
    left.entries.length ≤ t.entries.length := by
  unfold remove at removed
  split at removed
  · cases removed
    exact List.length_filter_le _ _
  · cases removed

theorem length_replace {filter? : Option FilterId} {old : FilterId} {left : Template}
    (replaced : t.replace name filter? = .ok (old,left)) : left.entries.length = t.entries.length := by
  cases filter? with
  | none => cases replaced
  | some filter =>
    simp only [replace,needFilter] at replaced
    split at replaced
    · cases replaced
      exact List.length_map _
    · cases replaced

/-- No edit adds more than one entry. -/
theorem length_after (t : Template) (e : Edit) : (t.after e).2.entries.length ≤ t.entries.length + 1 := by
  cases edited : t.edit e with
  | error failure => simp [after_error edited]
  | ok result =>
    rw [after_ok edited]
    cases e with
    | add position name filter =>
      obtain ⟨left,added,same⟩ := ok_of_except_bind edited
      cases same
      exact Nat.le_of_eq (length_add added)
    | remove name =>
      obtain ⟨left,removed,same⟩ := ok_of_except_bind edited
      cases same
      exact Nat.le_succ_of_le (length_remove removed)
    | replace name filter =>
      obtain ⟨left,replaced,same⟩ := ok_of_except_bind edited
      cases same
      exact Nat.le_succ_of_le (Nat.le_of_eq (length_replace replaced))
    | clear =>
      cases edited
      exact Nat.zero_le _

theorem shown_empty : ({} : Template).Shown .empty [] [] := ⟨Chain.empty_holds,rfl⟩

namespace Shown

theorem names (shown : t.Shown c ids flight) :
    ids.map (fun id => (c.slot id).name) = t.entries.map (·.1) := by
  have same := congrArg (List.map Prod.fst) shown.rows
  simpa only [List.map_map,Function.comp_def,Slot.row,row] using same

theorem distinct (shown : t.Shown c ids flight) : (t.entries.map (·.1)).Nodup :=
  shown.names ▸ shown.holds.names

theorem mem_iff (shown : t.Shown c ids flight) (name : String) (filter : FilterId) :
    (name,filter) ∈ t.entries ↔ ∃ id ∈ ids, (c.slot id).name = name ∧ (c.slot id).filter = some filter := by
  have same := congrArg (fun rows => (name,some filter) ∈ rows) shown.rows
  simpa [Slot.row,row,eq_comm] using same

theorem get?_eq_some_iff (shown : t.Shown c ids flight) (name : String) (filter : FilterId) :
    t.get? name = some filter ↔ (name,filter) ∈ t.entries :=
  lookup_eq_some_iff_mem shown.distinct name filter

theorem get? (shown : t.Shown c ids flight) (name : String) :
    t.get? name = (c.find? name).bind fun id => (c.slot id).filter := by
  cases found : c.find? name with
  | none =>
    apply Option.eq_none_iff_forall_ne_some.mpr
    intro filter got
    obtain ⟨id,member,named,_⟩ := (shown.mem_iff name filter).mp ((shown.get?_eq_some_iff name filter).mp got)
    exact (shown.holds.find?_eq_none_iff name).mp found id member named
  | some id =>
    obtain ⟨member,named⟩ := (shown.holds.find?_eq_some_iff name id).mp found
    obtain ⟨filter,holding⟩ := Option.isSome_iff_exists.mp (shown.holds.filters id member)
    rw [Option.bind_some,holding]
    apply (shown.get?_eq_some_iff name filter).mpr
    exact (shown.mem_iff name filter).mpr ⟨id,member,named,holding⟩

theorem get?_of_find? (shown : t.Shown c ids flight) {id : EntryId} (found : c.find? name = some id) :
    ∃ filter, t.get? name = some filter ∧ (c.slot id).filter = some filter := by
  have member := ((shown.holds.find?_eq_some_iff name id).mp found).1
  obtain ⟨filter,holding⟩ := Option.isSome_iff_exists.mp (shown.holds.filters id member)
  have got := shown.get? name
  rw [found,Option.bind_some,holding] at got
  exact ⟨filter,got,holding⟩

theorem contains (shown : t.Shown c ids flight) (name : String) : c.contains name = t.contains name := by
  rw [Chain.contains,Template.contains]
  cases found : c.find? name with
  | none => rw [shown.get?,found]; rfl
  | some id =>
    obtain ⟨filter,got,_⟩ := shown.get?_of_find? found
    rw [got]; rfl

theorem length (shown : t.Shown c ids flight) : ids.length = t.entries.length := by
  simpa using congrArg List.length shown.rows

theorem alike (shown : t.Shown c ids flight) (ref : SessionRef) : t.Alike ref c := by
  have size : c.size = t.size := by
    rw [Chain.size,shown.holds.index.length_eq,List.length_map,shown.length,Template.size]
  have isEmpty : c.isEmpty = t.isEmpty := by
    rw [Bool.eq_iff_iff,Chain.isEmpty,Template.isEmpty,List.isEmpty_iff_length_eq_zero,
      List.isEmpty_iff_length_eq_zero]
    exact iff_of_eq (congrArg (· = 0) size)
  refine ⟨?getAll,shown.contains,?get,size,isEmpty,?toString⟩
  case getAll =>
    rw [shown.holds.getAll_eq,List.map_map]
    exact shown.rows
  case get =>
    intro name
    rw [Chain.get]
    cases found : c.find? name with
    | none => rw [shown.get?,found]; rfl
    | some id =>
      obtain ⟨filter,got,holding⟩ := shown.get?_of_find? found
      simp [got,holding]
  case toString =>
    intro label
    have labelled := congrArg (List.map fun row => (row.1,(row.2.map label).getD "null")) shown.rows
    simp only [List.map_map,Function.comp_def,Slot.row,row] at labelled
    rw [Chain.toString,isEmpty,shown.holds.forwards_eq,labelled,Template.toString,Template.isEmpty]
    split
    · rename_i none
      rw [List.isEmpty_iff.mp none]; rfl
    · rfl

theorem checkAddition (shown : t.Shown c ids flight) (name : String) (position : Position) :
    c.checkAddition name position =
      if t.contains name then .error (.duplicateName name) else t.checkBase position := by
  rw [Chain.checkAddition,shown.contains]
  cases position <;> simp [Chain.checkBase,Template.checkBase,shown.contains]

theorem add_eq (shown : t.Shown c ids flight) (position : Position) (name : String)
    (filter : FilterId) : t.add position name (some filter) =
      (c.checkAddition name position).map fun _ => ⟨Template.insertAt position (name,filter) t.entries⟩ := by
  rw [shown.checkAddition,Template.add]
  cases taken : t.contains name with
  | true => rfl
  | false =>
    cases based : t.checkBase position with
    | error failure => simp [Template.needFilter]; rfl
    | ok => simp [Template.needFilter]; rfl

/-- A chain in order whose entries have kept name and filter still shows the template. -/
theorem congr (shown : t.Shown c ids flight) {flight' : List EntryId} (holds : c'.Holds ids flight')
    (kept : ∀ id ∈ ids, (c'.slot id).row = (c.slot id).row) : t.Shown c' ids flight' :=
  ⟨holds,(List.map_congr_left kept).trans shown.rows⟩

end Shown

theorem insertBefore_of_notMem {before after : List (String × FilterId)} (entry : String × FilterId)
    (missing : base ∉ before.map (·.1)) :
    insertBefore base entry (before ++ (base,filter) :: after) =
      before ++ entry :: (base,filter) :: after := by
  induction before with
  | nil => simp [insertBefore]
  | cons e rest ih =>
    rw [List.map_cons,List.mem_cons,not_or] at missing
    simp [insertBefore,Ne.symm missing.1,ih missing.2]

theorem insertAfter_of_notMem {before after : List (String × FilterId)} (entry : String × FilterId)
    (missing : base ∉ before.map (·.1)) :
    insertAfter base entry (before ++ (base,filter) :: after) =
      before ++ (base,filter) :: entry :: after := by
  induction before with
  | nil => simp [insertAfter]
  | cons e rest ih =>
    rw [List.map_cons,List.mem_cons,not_or] at missing
    simp [insertAfter,Ne.symm missing.1,ih missing.2]

theorem filter_of_notMem {entries : List (String × FilterId)} (missing : name ∉ entries.map (·.1)) :
    entries.filter (·.1 != name) = entries := by
  apply List.filter_eq_self.mpr
  intro e inside
  rw [bne_iff_ne]
  intro same
  exact missing (List.mem_map.mpr ⟨e,inside,same⟩)

namespace Shown

/-- Where the list of entries is split, so is the template. -/
theorem split {before after : List EntryId} (shown : t.Shown c (before ++ after) flight) :
    ∃ left right, t.entries = left ++ right ∧
      before.map (fun id => (c.slot id).row) = left.map row ∧
      after.map (fun id => (c.slot id).row) = right.map row := by
  have rows := shown.rows
  rw [List.map_append,eq_comm,List.map_eq_append_iff] at rows
  obtain ⟨left,right,entries,first,last⟩ := rows
  exact ⟨left,right,entries,first.symm,last.symm⟩

/-- Of an entry in the chain the template has the name and the filter at the same place. -/
theorem split_at {before after : List EntryId} {id : EntryId}
    (shown : t.Shown c (before ++ id :: after) flight) :
    ∃ left filter right, t.entries = left ++ ((c.slot id).name,filter) :: right ∧
      (c.slot id).filter = some filter ∧
      before.map (fun id => (c.slot id).row) = left.map row ∧
      after.map (fun id => (c.slot id).row) = right.map row := by
  obtain ⟨left,right,entries,first,last⟩ := shown.split
  cases right with
  | nil => cases last
  | cons e right =>
    rw [List.map_cons,List.map_cons] at last
    obtain ⟨same,last⟩ := List.cons.inj last
    obtain ⟨named,holding⟩ := Prod.mk.inj same
    rw [named]
    exact ⟨left,e.2,right,entries,holding,first,last⟩

theorem notMem_left {left right : List (String × FilterId)} {e : String × FilterId}
    (shown : t.Shown c ids flight) (entries : t.entries = left ++ e :: right) :
    e.1 ∉ left.map (·.1) ∧ e.1 ∉ right.map (·.1) := by
  have distinct := shown.distinct
  rw [entries,List.map_append,List.map_cons,List.nodup_middle,List.nodup_cons,List.mem_append,
    not_or] at distinct
  exact distinct.1

/-- Both put a new entry at the same place. -/
theorem insertAt {before after : List EntryId} (shown : t.Shown c (before ++ after) flight)
    (cuts : c.Cuts before after position) (entry : String × FilterId) :
    ∃ left right, insertAt position entry t.entries = left ++ entry :: right ∧
      before.map (fun id => (c.slot id).row) = left.map row ∧
      after.map (fun id => (c.slot id).row) = right.map row := by
  cases position with
  | first =>
    cases cuts
    exact ⟨[],t.entries,rfl,rfl,shown.rows⟩
  | last =>
    cases cuts
    rw [List.append_nil] at shown
    exact ⟨t.entries,[],rfl,shown.rows,rfl⟩
  | before base =>
    obtain ⟨id,rest,rfl,rfl⟩ := cuts
    obtain ⟨left,filter,right,entries,holding,first,last⟩ := shown.split_at
    refine ⟨left,((c.slot id).name,filter) :: right,?_,first,?_⟩
    · rw [Template.insertAt,entries]
      exact insertBefore_of_notMem entry (shown.notMem_left entries).1
    · rw [List.map_cons,List.map_cons,last,Slot.row,holding,row]
  | after base =>
    obtain ⟨rest,id,rfl,rfl⟩ := cuts
    rw [List.append_assoc] at shown
    obtain ⟨left,filter,right,entries,holding,first,last⟩ := shown.split_at
    refine ⟨left ++ [((c.slot id).name,filter)],right,?_,?_,last⟩
    · rw [Template.insertAt,entries,insertAfter_of_notMem entry (shown.notMem_left entries).1]
      simp
    · rw [List.map_append,List.map_append,first,List.map_singleton,List.map_singleton,Slot.row,holding,row]

theorem allocate (shown : t.Shown c ids flight) (name : String) (filter : FilterId) :
    t.Shown (c.allocate name filter).2 ids ((c.allocate name filter).1 :: flight) := by
  have outside := (shown.holds.allocate_slot name filter).1
  apply shown.congr (shown.holds.allocate name filter)
  intro id member
  have other : id ≠ (c.allocate name filter).1 := by
    rintro rfl
    exact outside (by simp [member])
  rw [Chain.allocate_slot_of_ne c other]

/-- The slot in flight is linked as the template's new entry. -/
theorem insert {id : EntryId} (shown : t.Shown c ids (id :: flight))
    (admissible : c.checkAddition name position = .ok ()) (named : (c.slot id).name = name)
    (holding : (c.slot id).filter = some filter) :
    ∃ ids', (Template.mk (Template.insertAt position (name,filter) t.entries)).Shown
      (c.insert id name position) ids' flight := by
  obtain ⟨before,after,rfl,cuts,holds⟩ :=
    shown.holds.insert admissible named (Option.isSome_iff_exists.mpr ⟨filter,holding⟩)
  obtain ⟨left,right,entries,first,last⟩ := shown.insertAt cuts (name,filter)
  have slots := shown.holds.insert_slot admissible
  refine ⟨before ++ id :: after,holds,?_⟩
  simp only [Slot.row,row,slots,entries,List.map_append,List.map_cons,named,holding] at first last ⊢
  rw [first,last]

/-- An entry leaves both. -/
theorem drop {id : EntryId} (shown : t.Shown c ids flight) (member : id ∈ ids) :
    ∃ ids', (Template.mk (t.entries.filter (·.1 != (c.slot id).name))).Shown
      (c.drop id (c.slot id).name) ids' flight ∧ ids'.length < ids.length := by
  obtain ⟨before,after,rfl,holds⟩ := shown.holds.drop member
  obtain ⟨left,filter,right,entries,holding,first,last⟩ := shown.split_at
  obtain ⟨_,_,_,_,_,_,path⟩ := Chain.path_around before after id
  have slots := shown.holds.drop_slot path (c.slot id).name
  obtain ⟨inLeft,inRight⟩ := shown.notMem_left entries
  have once := shown.holds.ids_nodup
  rw [List.nodup_middle,List.nodup_cons] at once
  refine ⟨before ++ after,⟨holds,?_⟩,by simp⟩
  have rest : t.entries.filter (·.1 != (c.slot id).name) = left ++ right := by
    rw [entries,List.filter_append,List.filter_cons_of_neg (by simp),filter_of_notMem inLeft,
      filter_of_notMem inRight]
  have kept (x : EntryId) (inside : x ∈ before ++ after) :
      ((c.drop id (c.slot id).name).slot x).row = (c.slot x).row := by
    have other : x ≠ id := by
      rintro rfl
      exact once.1 inside
    rw [slots,if_neg other]
    rfl
  rw [rest,List.map_congr_left kept,List.map_append,List.map_append,first,last]

/-- A filter takes another's place in both. -/
theorem setFilter {id : EntryId} (shown : t.Shown c ids flight) (found : c.find? name = some id)
    (filter : FilterId) :
    (Template.mk (t.entries.map fun e => if e.1 == name then (name,filter) else e)).Shown
      (c.setFilter id filter) ids flight := by
  obtain ⟨member,named⟩ := (shown.holds.find?_eq_some_iff name id).mp found
  have linked : (c.slot id).linked = true := (shown.holds.flags id).mpr (by simp [member])
  have inside : id < c.slots.size := shown.holds.inside (by simp [member])
  refine ⟨shown.holds.setFilter linked filter,?_⟩
  have replaced := congrArg (List.map fun row =>
    if row.1 == name then (name,some filter) else row) shown.rows
  simp only [List.map_map,Function.comp_def] at replaced
  have rows (x : EntryId) (mem : x ∈ ids) :
      ((c.setFilter id filter).slot x).row =
        if (c.slot x).row.1 == name then (name,some filter) else (c.slot x).row := by
    rw [Chain.setFilter_slot]
    by_cases same : x = id
    · subst same
      simp [Slot.row,inside,named]
    · have differs : (c.slot x).name ≠ name := by
        intro equal
        have found' := (shown.holds.find?_eq_some_iff name x).mpr ⟨mem,equal⟩
        exact same (Option.some.inj (found'.symm.trans found))
      simp [Slot.row,same,differs]
  rw [List.map_congr_left rows,replaced,List.map_map]
  apply List.map_congr_left
  intro e _
  by_cases same : e.1 = name <;> simp [row,same]

end Shown

end Template
end SessionPipeline
