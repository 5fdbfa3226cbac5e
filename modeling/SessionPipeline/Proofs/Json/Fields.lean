import Mathlib.Data.List.Nodup
import SessionPipeline.Json.Basic

/-! The fields of objects, by their keys: what an object made of fields has under a key is the last
field given for it. -/
namespace SessionPipeline.Json

theorem lookup_insertFields (given sorted : List (String × Json)) (key : String) :
    (given.foldl (fun sorted (k, v) => insertField k v sorted) sorted).lookup key =
      (given.reverse.lookup key).or (sorted.lookup key) := by
  induction given generalizing sorted with
  | nil => rfl
  | cons field rest ih =>
    obtain ⟨k,v⟩ := field
    rw [List.foldl_cons,ih,List.reverse_cons,List.lookup_append,lookup_insertField,lookup_field,
      Option.or_assoc]
    split <;> rfl

@[simp] theorem isObject_object (given : List (String × Json)) : (object given).isObject = true := rfl

theorem field?_object (given : List (String × Json)) (key : String) :
    (object given).field? key = given.reverse.lookup key := by
  rw [object,field?,lookup_insertFields]
  simp

/-- An object has each of its fields, where no two of them are given for one key. -/
theorem field?_of_mem {given : List (String × Json)} {key : String} {value : Json}
    (distinct : (given.map (·.1)).Nodup) (mem : (key,value) ∈ given) :
    (object given).field? key = some value := by
  rw [field?_object]
  refine (lookup_eq_some_iff_mem ?_ key value).mpr (List.mem_reverse.mpr mem)
  rw [List.map_reverse]
  exact List.nodup_reverse.mpr distinct

end SessionPipeline.Json
