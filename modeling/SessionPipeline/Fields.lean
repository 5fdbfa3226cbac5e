/-!
Fields under keys. A list of fields has under a key what the first of them with that key has; where the
keys rise each is there once, and a new field has one place to go to.
-/
namespace SessionPipeline

variable {κ ν : Type}

section Rising

variable [LT κ]

/-- The keys rise, so each is there once. -/
def Rising (fields : List (κ × ν)) : Prop := fields.Pairwise (·.1 < ·.1)

theorem Rising.keys [Std.Irrefl (α := κ) (· < ·)] {fields : List (κ × ν)} (rising : Rising fields) :
    (fields.map (·.1)).Nodup := by
  refine List.pairwise_map.mpr (rising.imp fun {first second} below same => ?_)
  rw [same] at below
  exact Std.Irrefl.irrefl _ below

instance [DecidableLT κ] (fields : List (κ × ν)) : Decidable (Rising fields) :=
  inferInstanceAs (Decidable (List.Pairwise _ fields))

end Rising

variable [DecidableEq κ]

theorem lookup_field (key other : κ) (value : ν) (rest : List (κ × ν)) :
    List.lookup other ((key,value) :: rest) = if other = key then some value else rest.lookup other := by
  rw [List.lookup_cons]
  by_cases same : other = key
  · simp [same]
  · simp [same,beq_false_of_ne same]

theorem lookup_fresh {key : κ} {fields : List (κ × ν)} (fresh : key ∉ fields.map (·.1)) :
    fields.lookup key = none := by
  rw [List.lookup_eq_none_iff]
  intro field member
  rw [bne_iff_ne]
  intro same
  exact fresh (List.mem_map.mpr ⟨field,member,same.symm⟩)

theorem lookup_eq_some_iff_mem {fields : List (κ × ν)} (distinct : (fields.map (·.1)).Nodup) (key : κ)
    (value : ν) : fields.lookup key = some value ↔ (key,value) ∈ fields := by
  induction fields with
  | nil => simp
  | cons field rest ih =>
    obtain ⟨other,given⟩ := field
    obtain ⟨absent,apart⟩ := List.nodup_cons.mp distinct
    rw [lookup_field,List.mem_cons,← ih apart]
    by_cases same : key = other
    · subst same
      simp [lookup_fresh absent,eq_comm]
    · simp [same]

theorem mem_of_lookup {key : κ} {value : ν} {fields : List (κ × ν)}
    (found : fields.lookup key = some value) : (key,value) ∈ fields := by
  obtain ⟨before,after,rfl,-⟩ := List.lookup_eq_some_iff.mp found
  simp

/-- Without the fields of a key nothing is under that key, and the others are as they were. -/
theorem lookup_filter (key other : κ) (fields : List (κ × ν)) :
    (fields.filter (·.1 != key)).lookup other = if other = key then none else fields.lookup other := by
  induction fields with
  | nil => simp
  | cons field rest ih =>
    obtain ⟨first,value⟩ := field
    rw [lookup_field]
    by_cases gone : first = key
    · rw [List.filter_cons_of_neg (by simp [gone]),ih]
      split
      · rfl
      · rename_i differs
        rw [if_neg fun here => differs (here.trans gone)]
    · rw [List.filter_cons_of_pos (by simpa using gone),lookup_field,ih]
      split
      · rename_i here
        rw [if_neg fun same => gone (here.symm.trans same)]
      · rfl

variable [LT κ] [DecidableLT κ]

/-- The new field takes the place of another one under its key. -/
def insertField (key : κ) (value : ν) : List (κ × ν) → List (κ × ν)
  | [] => [(key, value)]
  | (k, v) :: rest =>
    if key < k then (key, value) :: (k, v) :: rest
    else if key = k then (key, value) :: rest
    else (k, v) :: insertField key value rest

theorem mem_insertField {key : κ} {value : ν} {fields : List (κ × ν)} {field : κ × ν}
    (member : field ∈ insertField key value fields) : field = (key,value) ∨ field ∈ fields := by
  induction fields with
  | nil => exact .inl (List.mem_singleton.mp member)
  | cons first rest ih =>
    rw [insertField] at member
    split at member
    · exact List.mem_cons.mp member
    · split at member
      · exact (List.mem_cons.mp member).imp_right (List.mem_cons_of_mem first)
      · rcases List.mem_cons.mp member with rfl | later
        · exact .inr List.mem_cons_self
        · exact (ih later).imp_right (List.mem_cons_of_mem first)

theorem lookup_insertField (key other : κ) (value : ν) (fields : List (κ × ν)) :
    (insertField key value fields).lookup other =
      if other = key then some value else fields.lookup other := by
  induction fields with
  | nil => rw [insertField,lookup_field]
  | cons field rest ih =>
    obtain ⟨k,v⟩ := field
    rw [insertField]
    split
    · rw [lookup_field]
    · split
      · rename_i here
        subst here
        rw [lookup_field,lookup_field]
        split <;> rfl
      · rename_i differs
        rw [lookup_field,lookup_field,ih]
        by_cases here : other = k
        · rw [if_pos here,if_pos here,if_neg fun same => differs (same.symm.trans here)]
        · rw [if_neg here,if_neg here]

theorem rising_insertField [Trans (α := κ) (· < ·) (· < ·) (· < ·)] [Std.Trichotomous (α := κ) (· < ·)]
    (key : κ) (value : ν) {fields : List (κ × ν)} (rising : Rising fields) :
    Rising (insertField key value fields) := by
  induction fields with
  | nil => exact List.pairwise_singleton _ _
  | cons first rest ih =>
    obtain ⟨above,later⟩ := List.pairwise_cons.mp rising
    rw [insertField]
    split
    · rename_i below
      refine List.pairwise_cons.mpr ⟨fun field member => ?_,rising⟩
      rcases List.mem_cons.mp member with rfl | member
      · exact below
      · exact Std.lt_trans below (above field member)
    · rename_i reached
      split
      · rename_i same
        exact List.pairwise_cons.mpr ⟨fun field member => same ▸ above field member,later⟩
      · rename_i differs
        refine List.pairwise_cons.mpr ⟨fun field member => ?_,ih later⟩
        rcases mem_insertField member with rfl | member
        · exact Decidable.byContradiction fun falls =>
            differs (Std.Trichotomous.trichotomous _ _ reached falls)
        · exact above field member

end SessionPipeline
