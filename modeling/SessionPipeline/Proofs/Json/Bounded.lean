import Mathlib.Algebra.Group.Int.Defs
import Mathlib.Algebra.Group.Nat.Defs
import SessionPipeline.Json.Reader
import SessionPipeline.Proofs.Json.Fields

/-! Values whose integers are those of 64 bits, with a sign or without. No text is read as any other. -/
namespace SessionPipeline.Json

inductive Bounded : Json → Prop
  | null : Bounded null
  | bool (b : Bool) : Bounded (bool b)
  | int {n : Int} (low : -2 ^ 63 ≤ n) (high : n < 2 ^ 64) : Bounded (int n)
  | float (bits : UInt64) : Bounded (float bits)
  | str (s : String) : Bounded (str s)
  | arr {items : List Json} (all : ∀ item ∈ items, Bounded item) : Bounded (arr items)
  | obj {fields : List (String × Json)} (all : ∀ field ∈ fields, Bounded field.2) : Bounded (obj fields)

attribute [simp] Bounded.null Bounded.bool Bounded.float Bounded.str

@[simp] theorem bounded_int {n : Int} : (int n).Bounded ↔ -2 ^ 63 ≤ n ∧ n < 2 ^ 64 :=
  ⟨fun | .int low high => ⟨low,high⟩,fun ⟨low,high⟩ => .int low high⟩

@[simp] theorem bounded_arr {items : List Json} : (arr items).Bounded ↔ ∀ item ∈ items, item.Bounded :=
  ⟨fun | .arr all => all,.arr⟩

@[simp] theorem bounded_obj {fields : List (String × Json)} :
    (obj fields).Bounded ↔ ∀ field ∈ fields, field.2.Bounded :=
  ⟨fun | .obj all => all,.obj⟩

theorem Bounded.field? {j value : Json} {key : String} (bounded : j.Bounded)
    (found : j.field? key = some value) : value.Bounded := by
  cases bounded with
  | obj all => exact all _ (mem_of_lookup found)
  | _ => cases found

theorem bounded_insertField {key : String} {value : Json} {fields : List (String × Json)}
    (bounded : value.Bounded) (all : ∀ field ∈ fields, field.2.Bounded) :
    ∀ field ∈ insertField key value fields, field.2.Bounded := by
  intro field member
  rcases mem_insertField member with rfl | known
  · exact bounded
  · exact all field known

theorem bounded_object {given : List (String × Json)} (all : ∀ field ∈ given, field.2.Bounded) :
    (object given).Bounded := by
  suffices kept : ∀ sorted : List (String × Json), (∀ field ∈ sorted, field.2.Bounded) →
      ∀ field ∈ given.foldl (fun sorted field => insertField field.1 field.2 sorted) sorted, field.2.Bounded from
    .obj (kept [] (by simp))
  induction given with
  | nil => exact fun _ sound => sound
  | cons field rest ih =>
    obtain ⟨first,others⟩ := List.forall_mem_cons.mp all
    exact fun sorted sound => ih others _ (bounded_insertField first sound)

theorem bounded_readNumber {cs rest : List Char} {value : Json} (read : readNumber cs = some (value,rest)) :
    value.Bounded := by
  unfold readNumber at read
  split at read
  rename_i negative cs' _
  obtain ⟨⟨whole,cs₁⟩,-,read⟩ := Option.bind_eq_some_iff.mp read
  obtain ⟨⟨fraction,cs₂⟩,-,read⟩ := Option.bind_eq_some_iff.mp read
  obtain ⟨⟨exponent,cs₃⟩,-,read⟩ := Option.bind_eq_some_iff.mp read
  dsimp only at read
  generalize (if negative = true then -(digitsValue whole : Int) else digitsValue whole) = n at read
  split at read
  · rename_i fits
    simp only [Bool.and_eq_true,decide_eq_true_eq] at fits
    have low : Int64.minValue.toInt = -2 ^ 63 := rfl
    cases read
    exact .int (low ▸ fits.1.2) fits.2
  · obtain ⟨bits,-,read⟩ := Option.bind_eq_some_iff.mp read
    cases read
    exact .float bits

/-- Values, items and fields that are read with this much fuel have integers of 64 bits only. -/
structure ReadsBounded (fuel : Nat) : Prop where
  value : ∀ {cs rest value}, readValue fuel cs = some (value,rest) → value.Bounded
  items : ∀ {cs rest items}, readItems fuel cs = some (items,rest) → ∀ item ∈ items, item.Bounded
  fields : ∀ {cs rest fields}, readFields fuel cs = some (fields,rest) → ∀ field ∈ fields, field.2.Bounded

namespace ReadsBounded

variable {fuel : Nat} (reads : ReadsBounded fuel)
include reads

theorem value_succ {cs rest : List Char} {value : Json}
    (read : readValue (fuel + 1) cs = some (value,rest)) : value.Bounded := by
  rw [readValue] at read
  split at read
  · cases read
    exact .null
  · cases read
    exact .bool true
  · cases read
    exact .bool false
  · obtain ⟨⟨s,rest'⟩,-,same⟩ := Option.map_eq_some_iff.mp read
    cases same
    exact .str s
  · split at read
    · cases read
      exact .arr (by simp)
    · obtain ⟨⟨items,rest'⟩,listed,same⟩ := Option.map_eq_some_iff.mp read
      cases same
      exact .arr (reads.items listed)
  · split at read
    · cases read
      exact .obj (by simp)
    · obtain ⟨⟨fields,rest'⟩,listed,same⟩ := Option.map_eq_some_iff.mp read
      cases same
      exact bounded_object (reads.fields listed)
  · exact bounded_readNumber read

theorem items_succ {cs rest : List Char} {items : List Json}
    (read : readItems (fuel + 1) cs = some (items,rest)) : ∀ item ∈ items, item.Bounded := by
  rw [readItems] at read
  split at read
  · cases read
  · rename_i item rest' first
    split at read
    · cases read
      simpa using reads.value first
    · obtain ⟨⟨others,rest''⟩,listed,same⟩ := Option.map_eq_some_iff.mp read
      cases same
      exact List.forall_mem_cons.mpr ⟨reads.value first,reads.items listed⟩
    · cases read

theorem fields_succ {cs rest : List Char} {fields : List (String × Json)}
    (read : readFields (fuel + 1) cs = some (fields,rest)) : ∀ field ∈ fields, field.2.Bounded := by
  rw [readFields] at read
  split at read
  · split at read
    · cases read
    · split at read
      · split at read
        · cases read
        · rename_i value rest' first
          split at read
          · cases read
            simpa using reads.value first
          · obtain ⟨⟨others,rest''⟩,listed,same⟩ := Option.map_eq_some_iff.mp read
            cases same
            exact List.forall_mem_cons.mpr ⟨reads.value first,reads.fields listed⟩
          · cases read
      · cases read
  · cases read

end ReadsBounded

theorem readsBounded (fuel : Nat) : ReadsBounded fuel := by
  induction fuel with
  | zero =>
    constructor
    · intro cs rest value read
      rw [readValue] at read
      cases read
    · intro cs rest items read
      rw [readItems] at read
      cases read
    · intro cs rest fields read
      rw [readFields] at read
      cases read
  | succ fuel ih => exact ⟨ih.value_succ,ih.items_succ,ih.fields_succ⟩

theorem bounded_parse {text : String} {j : Json} (read : parse text = some j) : j.Bounded := by
  rw [parse] at read
  split at read
  · rename_i value rest found
    split at read
    · cases read
      exact (readsBounded _).value found
    · cases read
  · cases read

end SessionPipeline.Json
