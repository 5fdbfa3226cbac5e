import Mathlib.Algebra.Group.Int.Defs
import Mathlib.Algebra.Group.Nat.Defs
import SessionPipeline.Config.Basic
import SessionPipeline.Proofs.Effect.Basic
import SessionPipeline.Proofs.Json.Fields

/-! Configurations written as JSON and read again. What can be read back is written so that reading gives
it back, and whatever has been read can be. -/
namespace SessionPipeline

namespace FilterConfig

theorem fromJson_object {j : Json} (object : j.isObject = true) (field : String) :
    fromJson j field = (do
      let name ← readField Json.asString? j "name" field ""
      let type ← readField Json.asString? j "type" field ""
      let enabled ← readField Json.asBool? j "enabled" field true
      let config ← readConfig j field
      return { name := name, type := type, enabled := enabled, config := config }) := by
  rw [fromJson,object]
  rfl

theorem toJson_field? (f : FilterConfig) (key : String) : f.toJson.field? key =
    if key = "config" then some f.config else if key = "enabled" then some (.bool f.enabled)
    else if key = "type" then some (.str f.type) else if key = "name" then some (.str f.name)
    else none := by
  rw [toJson,Json.field?_object]
  simp only [List.reverse_cons,List.reverse_nil,List.nil_append,List.cons_append,lookup_field,
    List.lookup_nil]

theorem readField_of_read {α : Type} {read : Json → Option α} {j value : Json} {key field : String}
    {default a : α} (found : j.field? key = some value) (taken : read value = some a) :
    readField read j key field default = .ok a := by
  rw [readField,found]
  dsimp only
  rw [taken]

theorem fromJson_toJson {f : FilterConfig} (object : f.config.isObject = true) (field : String) :
    fromJson f.toJson field = .ok f := by
  have name : readField Json.asString? f.toJson "name" field "" = .ok f.name :=
    readField_of_read (toJson_field? f "name") rfl
  have type : readField Json.asString? f.toJson "type" field "" = .ok f.type :=
    readField_of_read (toJson_field? f "type") rfl
  have enabled : readField Json.asBool? f.toJson "enabled" field true = .ok f.enabled :=
    readField_of_read (toJson_field? f "enabled") rfl
  have config : readConfig f.toJson field = .ok f.config := by
    rw [readConfig,toJson_field?]
    exact if_pos object
  rw [fromJson_object rfl,name,type,enabled,config]
  rfl

/-- Whatever has been read as a filter's configuration is an object. -/
theorem readConfig_object {j config : Json} {field : String} (read : readConfig j field = .ok config) :
    config.isObject = true := by
  rw [readConfig] at read
  split at read
  · cases read
    rfl
  · split at read
    · cases read
      assumption
    · cases read

theorem fromJson_object_config {j : Json} {field : String} {f : FilterConfig}
    (read : fromJson j field = .ok f) : f.config.isObject = true := by
  cases object : j.isObject with
  | false => rw [fromJson,object] at read; cases read
  | true =>
    rw [fromJson_object object] at read
    obtain ⟨name,-,read⟩ := ok_of_except_bind read
    obtain ⟨type,-,read⟩ := ok_of_except_bind read
    obtain ⟨enabled,-,read⟩ := ok_of_except_bind read
    obtain ⟨config,taken,read⟩ := ok_of_except_bind read
    cases read
    exact readConfig_object taken

end FilterConfig

namespace SessionConfig

/-- The filters of a document, none if it does not list any. -/
def readListed (j : Json) : Except Failure (List FilterConfig) :=
  match j.field? "filters" with
  | none => .ok []
  | some (.arr items) => readFilters 0 items
  | some _ => .error (.invalidConfig "filters" "Filters must be an array")

theorem fromJson_object {j : Json} (object : j.isObject = true) :
    fromJson j = (do
      let capacity ← readCapacity j 16
      let level ← FilterConfig.readField Json.asString? j "log_level" "" "info"
      let filters ← readListed j
      return ⟨capacity, level, filters⟩) := by
  rw [fromJson,object]
  unfold readListed
  cases j.field? "filters" with
  | none => rfl
  | some value => cases value <;> rfl

theorem toJson_field? (c : SessionConfig) (key : String) : c.toJson.field? key =
    if key = "filters" then some (.arr (c.filters.map FilterConfig.toJson))
    else if key = "log_level" then some (.str c.logLevel)
    else if key = "write_queue_capacity" then some (.int c.writeQueueCapacity.toNat) else none := by
  rw [toJson,Json.field?_object]
  simp only [List.reverse_cons,List.reverse_nil,List.nil_append,List.cons_append,lookup_field,
    List.lookup_nil]

/-- A capacity that fits in 63 bits is read as it is written. -/
theorem readCapacity_toJson {c : SessionConfig} (small : c.writeQueueCapacity.toNat < 2 ^ 63)
    (default : UInt64) : readCapacity c.toJson default = .ok c.writeQueueCapacity := by
  have wide : Int.bmod (c.writeQueueCapacity.toNat : Int) UInt64.size = c.writeQueueCapacity.toNat :=
    Int.bmod_eq_of_le (by simp only [UInt64.size]; omega) (by simp only [UInt64.size]; omega)
  have taken : (Json.int c.writeQueueCapacity.toNat).asInt64? = some (c.writeQueueCapacity.toNat : Int) :=
    congrArg some wide
  have found : c.toJson.field? "write_queue_capacity" = some (.int c.writeQueueCapacity.toNat) :=
    toJson_field? c _
  rw [readCapacity,found]
  dsimp only
  rw [taken]
  dsimp only
  rw [if_neg (by omega)]
  simp [Nat.toUInt64]

theorem asInt64?_lt {value : Json} {n : Int} (taken : value.asInt64? = some n) : n < 2 ^ 63 := by
  cases value with
  | int m =>
    cases taken
    have below : m.bmod UInt64.size < (UInt64.size + 1) / 2 := Int.bmod_lt (by decide)
    simp only [UInt64.size] at below ⊢
    omega
  | _ => cases taken

theorem readCapacity_lt {j : Json} {default capacity : UInt64} (small : default.toNat < 2 ^ 63)
    (read : readCapacity j default = .ok capacity) : capacity.toNat < 2 ^ 63 := by
  rw [readCapacity] at read
  split at read
  · cases read
    exact small
  · split at read
    · rename_i value n taken
      split at read
      · cases read
      · cases read
        have below := asInt64?_lt taken
        simp only [Nat.toUInt64,UInt64.toNat_ofNat']
        omega
    · cases read

theorem readFilters_toJson {filters : List FilterConfig}
    (objects : ∀ f ∈ filters, f.config.isObject = true) (index : Nat) :
    readFilters index (filters.map FilterConfig.toJson) = .ok filters := by
  induction filters generalizing index with
  | nil => rfl
  | cons f rest ih =>
    obtain ⟨object,objects⟩ := List.forall_mem_cons.mp objects
    rw [List.map_cons,readFilters,FilterConfig.fromJson_toJson object,ih objects]
    rfl

theorem readFilters_objects {items : List Json} {index : Nat} {filters : List FilterConfig}
    (read : readFilters index items = .ok filters) : ∀ f ∈ filters, f.config.isObject = true := by
  induction items generalizing index filters with
  | nil =>
    cases read
    simp
  | cons item rest ih =>
    rw [readFilters] at read
    obtain ⟨first,taken,read⟩ := ok_of_except_bind read
    obtain ⟨others,later,read⟩ := ok_of_except_bind read
    cases read
    exact List.forall_mem_cons.mpr ⟨FilterConfig.fromJson_object_config taken,ih later⟩

/-- What JSON can hold of a configuration. -/
structure Writable (c : SessionConfig) : Prop where
  capacity : c.writeQueueCapacity.toNat < 2 ^ 63
  objects : ∀ f ∈ c.filters, f.config.isObject = true

theorem Writable.fromJson_toJson {c : SessionConfig} (writable : c.Writable) :
    fromJson c.toJson = .ok c := by
  have level : FilterConfig.readField Json.asString? c.toJson "log_level" "" "info" = .ok c.logLevel :=
    FilterConfig.readField_of_read (toJson_field? c "log_level") rfl
  have listed : c.toJson.field? "filters" = some (.arr (c.filters.map FilterConfig.toJson)) :=
    toJson_field? c "filters"
  have filters : readListed c.toJson = .ok c.filters := by
    rw [readListed,listed]
    exact readFilters_toJson writable.objects 0
  rw [fromJson_object rfl,readCapacity_toJson writable.capacity,level,filters]
  rfl

theorem writable_of_fromJson {j : Json} {c : SessionConfig} (read : fromJson j = .ok c) : c.Writable := by
  cases object : j.isObject with
  | false => rw [fromJson,object] at read; cases read
  | true =>
    rw [fromJson_object object] at read
    obtain ⟨capacity,number,read⟩ := ok_of_except_bind read
    obtain ⟨level,-,read⟩ := ok_of_except_bind read
    obtain ⟨filters,list,read⟩ := ok_of_except_bind read
    cases read
    refine ⟨readCapacity_lt (by decide) number,?_⟩
    rw [readListed] at list
    split at list
    · cases list
      simp
    · exact readFilters_objects list
    · cases list

/-- Writing a configuration and reading it back changes nothing, if it has a capacity that JSON integers
reach and objects for its filters; and a configuration that was read from any document has. -/
theorem toJson_reads :
    (∀ c : SessionConfig, c.writeQueueCapacity.toNat < 2 ^ 63 →
      (∀ f ∈ c.filters, f.config.isObject = true) → fromJson c.toJson = .ok c) ∧
    ∀ j c, fromJson j = .ok c → fromJson c.toJson = .ok c :=
  ⟨fun _ capacity objects => Writable.fromJson_toJson ⟨capacity,objects⟩,
    fun _ _ read => (writable_of_fromJson read).fromJson_toJson⟩

/-- The largest capacity, a level that is none and a filter without a name; and a document with keys that
mean nothing and without most that do. -/
theorem toJson_reads_unchecked :
    let c : SessionConfig := ⟨0x7FFFFFFFFFFFFFFF,"loud",[{ type := "noop", enabled := false }]⟩
    let j : Json := .obj [("filters",.arr [.obj [("config",.obj [("size",.float 0)]),("key",.null)]]),("key",.null)]
    let read : SessionConfig := { filters := [{ config := .obj [("size",.float 0)] }] }
    fromJson c.toJson = .ok c ∧ fromJson j = .ok read ∧ fromJson read.toJson = .ok read := by
  intro c j read
  have accepted : fromJson j = .ok read := rfl
  exact ⟨toJson_reads.1 c (by decide) (by simp [c,Json.isObject]),accepted,toJson_reads.2 j read accepted⟩

end SessionConfig

end SessionPipeline
