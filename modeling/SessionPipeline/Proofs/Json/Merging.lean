import Mathlib.Data.String.Basic
import SessionPipeline.Proofs.Json.Bounded

/-! Merging a patch into a value, field by field: what the patch does not name stays, what it names with a
null goes, and anything else is merged into what was there. -/
namespace SessionPipeline.Json

/-- Nothing is there under a key that all keys are above. -/
theorem lookup_below {key first : String} {fields : List (String × Json)}
    (above : ∀ field ∈ fields, first < field.1) (low : key ≤ first) : fields.lookup key = none := by
  refine lookup_fresh fun member => ?_
  obtain ⟨field,later,here⟩ := List.mem_map.mp member
  exact absurd (here ▸ above field later) (not_lt.mpr low)

/-- Fields in order are told by what is under each key. -/
theorem ext_of_rising {fields others : List (String × Json)} (rising : Rising fields) (rising' : Rising others)
    (same : ∀ key, fields.lookup key = others.lookup key) : fields = others := by
  induction fields generalizing others with
  | nil =>
    cases others with
    | nil => rfl
    | cons other others =>
      obtain ⟨l,u⟩ := other
      simpa [lookup_field] using same l
  | cons field fields ih =>
    obtain ⟨k,v⟩ := field
    obtain ⟨above,later⟩ := List.pairwise_cons.mp rising
    cases others with
    | nil => simpa [lookup_field] using same k
    | cons other others =>
      obtain ⟨l,u⟩ := other
      obtain ⟨above',later'⟩ := List.pairwise_cons.mp rising'
      -- The lower of the two first keys would be missing from the other list.
      have first : k = l := by
        rcases lt_trichotomy k l with low | here | low
        · simpa [lookup_field,low.ne,lookup_below above' low.le] using same k
        · exact here
        · simpa [lookup_field,low.ne,lookup_below above low.le] using same l
      subst first
      have value : v = u := by simpa [lookup_field] using same k
      have rest (key : String) : fields.lookup key = others.lookup key := by
        by_cases here : key = k
        · rw [here,lookup_below above le_rfl,lookup_below above' le_rfl]
        · simpa [lookup_field,here] using same key
      rw [value,ih later later' rest]

theorem eraseField_sublist (key : String) (fields : List (String × Json)) :
    (eraseField key fields).Sublist fields := by
  induction fields with
  | nil => exact .slnil
  | cons first rest ih =>
    rw [eraseField]
    split
    · exact List.sublist_cons_self first rest
    · exact ih.cons_cons first

theorem lookup_eraseField {key : String} {fields : List (String × Json)} (rising : Rising fields)
    (other : String) :
    (eraseField key fields).lookup other = if other = key then none else fields.lookup other := by
  induction fields with
  | nil => simp [eraseField]
  | cons first rest ih =>
    obtain ⟨k,v⟩ := first
    obtain ⟨above,later⟩ := List.pairwise_cons.mp rising
    rw [eraseField]
    split
    · rename_i same
      subst same
      rw [lookup_field]
      split
      · rename_i here
        subst here
        exact lookup_below above le_rfl
      · rfl
    · rename_i differs
      rw [lookup_field,lookup_field,ih later]
      by_cases here : other = k
      · rw [if_pos here,if_pos here,if_neg fun same => differs (same.symm.trans here)]
      · rw [if_neg here,if_neg here]

theorem mergeFields_value {key : String} {value : Json} (given : value ≠ null)
    (fields rest : List (String × Json)) : mergeFields fields ((key,value) :: rest) =
      mergeFields (insertField key (mergePatch ((fields.lookup key).getD null) value) fields) rest := by
  rw [mergeFields]
  exact given

theorem rising_mergeFields {fields : List (String × Json)} (rising : Rising fields)
    (patch : List (String × Json)) : Rising (mergeFields fields patch) := by
  induction patch generalizing fields with
  | nil =>
    rw [mergeFields]
    exact rising
  | cons field rest ih =>
    obtain ⟨key,value⟩ := field
    by_cases removed : value = null
    · rw [removed,mergeFields]
      exact ih (rising.sublist (eraseField_sublist key fields))
    · rw [mergeFields_value removed]
      exact ih (rising_insertField _ _ rising)

/-- What a patch does to what is there under a key. -/
def patched (there : Option Json) : Option Json → Option Json
  | none => there
  | some null => none
  | some value => some (mergePatch (there.getD null) value)

theorem patched_value {there : Option Json} {value : Json} (given : value ≠ null) :
    patched there (some value) = some (mergePatch (there.getD null) value) := by
  rw [patched]
  exact given

theorem lookup_mergeFields {fields patch : List (String × Json)} (rising : Rising fields)
    (distinct : (patch.map (·.1)).Nodup) (key : String) :
    (mergeFields fields patch).lookup key = patched (fields.lookup key) (patch.lookup key) := by
  induction patch generalizing fields with
  | nil =>
    rw [mergeFields]
    rfl
  | cons field rest ih =>
    obtain ⟨k,value⟩ := field
    obtain ⟨fresh,distinct⟩ := List.nodup_cons.mp distinct
    have once : rest.lookup k = none := lookup_fresh fresh
    rw [lookup_field]
    by_cases removed : value = null
    · rw [removed,mergeFields,ih (rising.sublist (eraseField_sublist k fields)) distinct,
        lookup_eraseField rising]
      split
      · rename_i here
        rw [here,once]
        rfl
      · rfl
    · rw [mergeFields_value removed,ih (rising_insertField _ _ rising) distinct,lookup_insertField]
      split
      · rename_i here
        rw [here,once,patched_value removed]
        rfl
      · rfl

/-- If the value is an object, its keys rise. -/
def Neat (value : Json) : Prop := ∀ fields, value = obj fields → Rising fields

/-- If the value is an object, its keys differ. -/
def Distinct (value : Json) : Prop := ∀ fields, value = obj fields → (fields.map (·.1)).Nodup

theorem mergePatch_obj (target : Json) (patch : List (String × Json)) :
    ∃ fields, target.mergePatch (obj patch) = obj fields := by
  cases target with
  | obj fields => exact ⟨_,by rw [mergePatch]⟩
  | _ => exact ⟨_,by rw [mergePatch]; exact nofun⟩

/-- The fields of what a patch makes of a value. -/
theorem field?_mergePatch {target : Json} {patch : List (String × Json)} (neat : target.Neat)
    (distinct : (patch.map (·.1)).Nodup) (key : String) :
    (target.mergePatch (obj patch)).field? key = patched (target.field? key) (patch.lookup key) := by
  cases target with
  | obj fields =>
    rw [mergePatch]
    exact lookup_mergeFields (neat fields rfl) distinct key
  | _ =>
    rw [mergePatch]
    · exact lookup_mergeFields .nil distinct key
    · exact nofun

theorem neat_mergePatch {target : Json} (neat : target.Neat) (patch : Json) :
    (target.mergePatch patch).Neat := by
  intro fields same
  cases patch with
  | obj patch =>
    cases target with
    | obj there =>
      rw [mergePatch] at same
      cases same
      exact rising_mergeFields (neat there rfl) patch
    | _ =>
      rw [mergePatch] at same
      · cases same
        exact rising_mergeFields .nil patch
      · exact nofun
  | _ =>
    rw [mergePatch] at same
    · cases same
    · exact nofun

theorem neat_lookup {fields : List (String × Json)} (neat : ∀ field ∈ fields, field.2.Neat) (key : String) :
    ((fields.lookup key).getD null).Neat := by
  cases found : fields.lookup key with
  | none => exact fun _ same => nomatch same
  | some value => exact neat _ (mem_of_lookup found)

/-- Objects that are merged in are put in order. -/
theorem neat_mergeFields {fields : List (String × Json)} (neat : ∀ field ∈ fields, field.2.Neat)
    (patch : List (String × Json)) : ∀ field ∈ mergeFields fields patch, field.2.Neat := by
  induction patch generalizing fields with
  | nil => rwa [mergeFields]
  | cons field rest ih =>
    obtain ⟨key,value⟩ := field
    by_cases removed : value = null
    · rw [removed,mergeFields]
      exact ih fun field member => neat field ((eraseField_sublist key fields).subset member)
    · rw [mergeFields_value removed]
      refine ih fun field member => ?_
      rcases mem_insertField member with rfl | member
      · exact neat_mergePatch (neat_lookup neat key) value
      · exact neat field member

theorem bounded_eraseField {fields : List (String × Json)} (all : ∀ field ∈ fields, field.2.Bounded)
    (key : String) : ∀ field ∈ eraseField key fields, field.2.Bounded :=
  fun field member => all field ((eraseField_sublist key fields).subset member)

theorem bounded_lookup {fields : List (String × Json)} (all : ∀ field ∈ fields, field.2.Bounded)
    (key : String) : ((fields.lookup key).getD null).Bounded := by
  cases found : fields.lookup key with
  | none => exact .null
  | some value => exact (Bounded.obj all).field? found

theorem bounded_mergePatch {target patch : Json} (bounded : target.Bounded) (given : patch.Bounded) :
    (target.mergePatch patch).Bounded := by
  induction given generalizing target with
  | obj all ih =>
    rename_i patch
    have merged : ∀ fields : List (String × Json), (∀ field ∈ fields, field.2.Bounded) →
        ∀ field ∈ mergeFields fields patch, field.2.Bounded := by
      clear all
      induction patch with
      | nil =>
        intro fields bounded
        rwa [mergeFields]
      | cons field rest later =>
        obtain ⟨key,value⟩ := field
        obtain ⟨first,others⟩ := List.forall_mem_cons.mp ih
        intro fields bounded
        by_cases removed : value = null
        · rw [removed,mergeFields]
          exact later others _ (bounded_eraseField bounded key)
        · rw [mergeFields_value removed]
          exact later others _ (bounded_insertField (first (bounded_lookup bounded key)) bounded)
    cases bounded with
    | obj all =>
      rw [mergePatch]
      exact .obj (merged _ all)
    | _ =>
      rw [mergePatch]
      exacts [.obj (merged [] (by simp)),nofun]
  | null => rw [mergePatch]; exacts [.null,nofun]
  | bool b => rw [mergePatch]; exacts [.bool b,nofun]
  | int low high => rw [mergePatch]; exacts [.int low high,nofun]
  | float bits => rw [mergePatch]; exacts [.float bits,nofun]
  | str s => rw [mergePatch]; exacts [.str s,nofun]
  | arr all => rw [mergePatch]; exacts [.arr all,nofun]

end SessionPipeline.Json
