import SessionPipeline.Proofs.Config.Checking
import SessionPipeline.Proofs.Config.RoundTrip
import SessionPipeline.Proofs.Json.Bounded

/-! What is demanded of a document and of a configuration, in the order in which it is looked at. Reading
and checking succeed where all of it holds, and otherwise fail for the first that does not. -/
namespace SessionPipeline

/-- The place in a document or a configuration that a failure names. -/
def Failure.configField? : Failure → Option String
  | invalidConfig field _ => some field
  | malformedConfig field => some field
  | _ => none

/-- Something that has to hold, and the failure where it does not. -/
structure Demand where
  failure : Failure
  met : Prop

/-- All demands before this one are met, and this one is not. -/
def FirstUnmet (demands : List Demand) (unmet : Demand) : Prop :=
  ∃ before after, demands = before ++ unmet :: after ∧ (∀ demand ∈ before, demand.met) ∧ ¬ unmet.met

/-- A check succeeds if everything demanded holds, and else fails for the first demand that does not. -/
def Enforces {α : Type} (demands : List Demand) (result : Except Failure α) : Prop :=
  (∃ a, result = .ok a) ∧ (∀ demand ∈ demands, demand.met) ∨
    ∃ unmet, FirstUnmet demands unmet ∧ result = .error unmet.failure

namespace Enforces

variable {α β : Type} {demands later : List Demand} {result : Except Failure α}

theorem succeeds_iff (enforced : Enforces demands result) :
    (∃ a, result = .ok a) ↔ ∀ demand ∈ demands, demand.met := by
  rcases enforced with ⟨ok,met⟩ | ⟨unmet,⟨before,after,rfl,-,broken⟩,rfl⟩
  · exact ⟨fun _ => met,fun _ => ok⟩
  · constructor
    · rintro ⟨a,same⟩
      cases same
    · intro met
      exact absurd (met unmet (by simp)) broken

theorem error (enforced : Enforces demands result) {failure : Failure} (refused : result = .error failure) :
    ∃ unmet, FirstUnmet demands unmet ∧ unmet.failure = failure := by
  rcases enforced with ⟨⟨a,rfl⟩,-⟩ | ⟨unmet,first,rfl⟩
  · cases refused
  · exact ⟨unmet,first,Except.error.inj refused⟩

theorem nothing (a : α) : Enforces [] (Except.ok a) := .inl ⟨⟨a,rfl⟩,by simp⟩

theorem held {failure : Failure} {met : Prop} (holds : met) (rest : Enforces later result) :
    Enforces (⟨failure,met⟩ :: later) result := by
  rcases rest with ⟨ok,all⟩ | ⟨unmet,⟨before,after,rfl,held,broken⟩,refused⟩
  · exact .inl ⟨ok,List.forall_mem_cons.mpr ⟨holds,all⟩⟩
  · exact .inr ⟨unmet,⟨⟨failure,met⟩ :: before,after,rfl,List.forall_mem_cons.mpr ⟨holds,held⟩,broken⟩,refused⟩

theorem refused {failure : Failure} {met : Prop} (broken : ¬ met) :
    Enforces (α := α) (⟨failure,met⟩ :: later) (.error failure) :=
  .inr ⟨_,⟨[],later,rfl,by simp,broken⟩,rfl⟩

/-- One check behind another. -/
theorem bind {next : α → Except Failure β} (first : Enforces demands result)
    (second : ∀ a, result = .ok a → Enforces later (next a)) :
    Enforces (demands ++ later) (result >>= next) := by
  rcases first with ⟨⟨a,rfl⟩,met⟩ | ⟨unmet,⟨before,after,rfl,held,broken⟩,rfl⟩
  · rcases second a rfl with ⟨ok,all⟩ | ⟨unmet,⟨before,after,rfl,held,broken⟩,refused⟩
    · exact .inl ⟨ok,fun demand member => (List.mem_append.mp member).elim (met demand) (all demand)⟩
    · refine .inr ⟨unmet,⟨demands ++ before,after,by simp,?_,broken⟩,refused⟩
      exact fun demand member => (List.mem_append.mp member).elim (met demand) (held demand)
  · exact .inr ⟨unmet,⟨before,after ++ later,by simp,held,broken⟩,rfl⟩

/-- A check of one demand in front of others. -/
theorem step {demand : Demand} {next : α → Except Failure β} (first : Enforces [demand] result)
    (second : ∀ a, result = .ok a → Enforces later (next a)) :
    Enforces (demand :: later) (result >>= next) :=
  first.bind second

theorem map (enforced : Enforces demands result) (f : α → β) :
    Enforces demands (result >>= fun a => .ok (f a)) := by
  rw [← List.append_nil demands]
  exact enforced.bind fun a _ => .nothing (f a)

end Enforces

/-- What stands under the key satisfies the test, if anything does. -/
def IfPresent (j : Json) (key : String) (test : Json → Prop) : Prop :=
  ∀ value, j.field? key = some value → test value

section Presence

variable {j value : Json} {key : String} {test : Json → Prop}

theorem ifPresent_of_none (absent : j.field? key = none) : IfPresent j key test := by
  intro value found
  rw [absent] at found
  cases found

theorem ifPresent_iff (found : j.field? key = some value) : IfPresent j key test ↔ test value := by
  constructor
  · exact fun present => present value found
  · intro holds other same
    rw [found] at same
    exact Option.some.inj same ▸ holds

end Presence

theorem isObject_iff {j : Json} : j.isObject = true ↔ ∃ fields, j = .obj fields := by
  cases j <;> simp [Json.isObject]

namespace FilterConfig

/-- What is demanded of an entry in the list of filters, found at this place. -/
def demands (item : Json) (place : String) : List Demand :=
  [⟨.invalidConfig place "Filter entry must be an object",∃ fields, item = .obj fields⟩,
    ⟨.malformedConfig (place ++ ".name"),IfPresent item "name" fun value => ∃ text, value = .str text⟩,
    ⟨.malformedConfig (place ++ ".type"),IfPresent item "type" fun value => ∃ text, value = .str text⟩,
    ⟨.malformedConfig (place ++ ".enabled"),IfPresent item "enabled" fun value => ∃ flag, value = .bool flag⟩,
    ⟨.invalidConfig (place ++ ".config") "Filter config must be an object",
      IfPresent item "config" fun value => ∃ fields, value = .obj fields⟩]

/-- An entry of the list of filters that has the right types. -/
structure Readable (item : Json) : Prop where
  object : ∃ fields, item = .obj fields
  name : IfPresent item "name" fun value => ∃ text, value = .str text
  type : IfPresent item "type" fun value => ∃ text, value = .str text
  enabled : IfPresent item "enabled" fun value => ∃ flag, value = .bool flag
  config : IfPresent item "config" fun value => ∃ fields, value = .obj fields

theorem demands_met_iff {item : Json} {place : String} :
    (∀ demand ∈ demands item place, demand.met) ↔ Readable item := by
  simp only [demands,List.forall_mem_cons,List.not_mem_nil,false_implies,implies_true,and_true]
  exact ⟨fun ⟨object,name,type,enabled,config⟩ => ⟨object,name,type,enabled,config⟩,
    fun ⟨object,name,type,enabled,config⟩ => ⟨object,name,type,enabled,config⟩⟩

theorem readField_enforces {α : Type} {read : Json → Option α} {test : Json → Prop}
    (reads : ∀ value, test value ↔ ∃ a, read value = some a) (j : Json) (key field : String) (default : α) :
    Enforces [⟨.malformedConfig (within field key),IfPresent j key test⟩]
      (readField read j key field default) := by
  rw [readField]
  cases found : j.field? key with
  | none => exact .held (ifPresent_of_none found) (.nothing default)
  | some value =>
    dsimp only
    cases taken : read value with
    | none =>
      refine .refused fun present => ?_
      obtain ⟨a,same⟩ := (reads value).mp (present value found)
      rw [taken] at same
      cases same
    | some a => exact .held ((ifPresent_iff found).mpr ((reads value).mpr ⟨a,taken⟩)) (.nothing a)

theorem asString?_reads (value : Json) : (∃ text, value = .str text) ↔ ∃ text, value.asString? = some text := by
  cases value <;> simp [Json.asString?]

theorem asBool?_reads (value : Json) : (∃ flag, value = .bool flag) ↔ ∃ flag, value.asBool? = some flag := by
  cases value <;> simp [Json.asBool?]

theorem readConfig_enforces (j : Json) (field : String) :
    Enforces [⟨.invalidConfig (field ++ ".config") "Filter config must be an object",
      IfPresent j "config" fun value => ∃ fields, value = .obj fields⟩] (readConfig j field) := by
  rw [readConfig]
  cases found : j.field? "config" with
  | none => exact .held (ifPresent_of_none found) (.nothing _)
  | some config =>
    dsimp only
    split
    · rename_i object
      exact .held ((ifPresent_iff found).mpr (isObject_iff.mp object)) (.nothing config)
    · rename_i other
      exact .refused fun present => other (isObject_iff.mpr (present config found))

theorem fromJson_enforces (item : Json) {place : String} (named : place ≠ "") :
    Enforces (demands item place) (fromJson item place) := by
  cases object : item.isObject with
  | false =>
    rw [fromJson,object]
    refine .refused fun fields => ?_
    rw [← isObject_iff,object] at fields
    cases fields
  | true =>
    have part {α : Type} {read : Json → Option α} {test : Json → Prop}
        (reads : ∀ value, test value ↔ ∃ a, read value = some a) (key dotted : String)
        (dot : "." ++ key = dotted) (default : α) :
        Enforces [⟨.malformedConfig (place ++ dotted),IfPresent item key test⟩]
          (readField read item key place default) := by
      have inside : within place key = place ++ dotted := by
        simp [within,named,← dot,String.append_assoc]
      rw [← inside]
      exact readField_enforces reads item key place default
    rw [fromJson_object object]
    exact .held (isObject_iff.mp object)
      ((part asString?_reads "name" ".name" rfl "").step fun name _ =>
        (part asString?_reads "type" ".type" rfl "").step fun type _ =>
          (part asBool?_reads "enabled" ".enabled" rfl true).step fun enabled _ =>
            (readConfig_enforces item place).map fun config => FilterConfig.mk name type enabled config)

end FilterConfig

namespace SessionConfig

/-- The entries of the list of filters, none where there is no list. -/
def entries (j : Json) : List Json :=
  match j.field? "filters" with
  | some (.arr items) => items
  | _ => []

/-- What is demanded of a document, in order. -/
def documentDemands (j : Json) : List Demand :=
  [⟨.invalidConfig "<root>" "Configuration must be an object",∃ fields, j = .obj fields⟩,
    ⟨.invalidConfig "write_queue_capacity" "Capacity must be a non-negative integer",
      IfPresent j "write_queue_capacity" fun value => ∃ n, value = .int n ∧ 0 ≤ n ∧ n < 2 ^ 63⟩,
    ⟨.malformedConfig "log_level",IfPresent j "log_level" fun value => ∃ text, value = .str text⟩,
    ⟨.invalidConfig "filters" "Filters must be an array",
      IfPresent j "filters" fun value => ∃ items, value = .arr items⟩] ++
  (entries j).zipIdx.flatMap fun (item, index) => FilterConfig.demands item (place index)

/-- A document that has the right types. -/
structure Readable (j : Json) : Prop where
  root : ∃ fields, j = .obj fields
  capacity : IfPresent j "write_queue_capacity" fun value => ∃ n, value = .int n ∧ 0 ≤ n ∧ n < 2 ^ 63
  level : IfPresent j "log_level" fun value => ∃ text, value = .str text
  filters : IfPresent j "filters" fun value =>
    ∃ items, value = .arr items ∧ ∀ item ∈ items, FilterConfig.Readable item

theorem entries_met_iff {items : List Json} : (∀ demand ∈ items.zipIdx.flatMap
      fun (item, index) => FilterConfig.demands item (place index), demand.met) ↔
    ∀ item ∈ items, FilterConfig.Readable item := by
  constructor
  · intro met item member
    obtain ⟨⟨_,index⟩,here,rfl⟩ := List.mem_map.mp ((List.zipIdx_map_fst 0 items).symm ▸ member)
    exact FilterConfig.demands_met_iff.mp fun demand inside =>
      met demand (List.mem_flatMap.mpr ⟨_,here,inside⟩)
  · intro readable demand member
    obtain ⟨⟨item,index⟩,here,inside⟩ := List.mem_flatMap.mp member
    exact FilterConfig.demands_met_iff.mpr (readable item (List.fst_mem_of_mem_zipIdx here)) demand inside

theorem documentDemands_met_iff {j : Json} :
    (∀ demand ∈ documentDemands j, demand.met) ↔ Readable j := by
  have listed : IfPresent j "filters" (fun value => ∃ items, value = .arr items) ∧
      (∀ item ∈ entries j, FilterConfig.Readable item) ↔ IfPresent j "filters" fun value =>
        ∃ items, value = .arr items ∧ ∀ item ∈ items, FilterConfig.Readable item := by
    rw [entries]
    cases found : j.field? "filters" with
    | none => simp [ifPresent_of_none found]
    | some value =>
      rw [ifPresent_iff found,ifPresent_iff found]
      cases value <;> simp
  simp only [documentDemands,List.forall_mem_append,List.forall_mem_cons,List.not_mem_nil,false_implies,
    implies_true,and_true,entries_met_iff]
  constructor
  · rintro ⟨⟨root,capacity,level,list⟩,all⟩
    exact ⟨root,capacity,level,listed.mp ⟨list,all⟩⟩
  · rintro ⟨root,capacity,level,filters⟩
    obtain ⟨list,all⟩ := listed.mpr filters
    exact ⟨⟨root,capacity,level,list⟩,all⟩

theorem place_ne (index : Nat) : place index ≠ "" := by
  intro empty
  have long := congrArg String.length empty
  simp [place] at long

/-- An integer without a sign that does not fit with one is read as a negative one. -/
theorem asInt64?_bounded {n : Int} (low : -2 ^ 63 ≤ n) (high : n < 2 ^ 64) :
    (Json.int n).asInt64? = some (if n < 2 ^ 63 then n else n - 2 ^ 64) := by
  simp only [Json.asInt64?,Int.bmod_def,UInt64.size,Option.some.injEq]
  split <;> split <;> omega

theorem readCapacity_enforces {j : Json} (bounded : j.Bounded) (default : UInt64) :
    Enforces [⟨.invalidConfig "write_queue_capacity" "Capacity must be a non-negative integer",
      IfPresent j "write_queue_capacity" fun value => ∃ n, value = .int n ∧ 0 ≤ n ∧ n < 2 ^ 63⟩]
      (readCapacity j default) := by
  rw [readCapacity]
  cases found : j.field? "write_queue_capacity" with
  | none => exact .held (ifPresent_of_none found) (.nothing default)
  | some value =>
    rw [ifPresent_iff found]
    dsimp only
    cases bounded.field? found with
    | @int n low high =>
      rw [asInt64?_bounded low high]
      dsimp only
      by_cases fits : 0 ≤ n ∧ n < 2 ^ 63
      · rw [if_pos fits.2,if_neg (by omega)]
        exact .held ⟨n,rfl,fits⟩ (.nothing _)
      · rw [if_pos (by split <;> omega)]
        refine .refused ?_
        rintro ⟨m,same,inside⟩
        cases same
        exact fits inside
    | _ =>
      refine .refused ?_
      rintro ⟨m,same,-⟩
      cases same

theorem readFilters_enforces (index : Nat) (items : List Json) :
    Enforces ((items.zipIdx index).flatMap fun (item, index) => FilterConfig.demands item (place index))
      (readFilters index items) := by
  induction items generalizing index with
  | nil => exact .nothing []
  | cons item rest ih =>
    rw [List.zipIdx_cons,List.flatMap_cons,readFilters]
    refine (FilterConfig.fromJson_enforces item (place_ne index)).bind fun first _ => ?_
    exact (ih (index + 1)).map fun others => first :: others

theorem readListed_enforces (j : Json) :
    Enforces (⟨.invalidConfig "filters" "Filters must be an array",
        IfPresent j "filters" fun value => ∃ items, value = .arr items⟩ ::
      (entries j).zipIdx.flatMap fun (item, index) => FilterConfig.demands item (place index))
      (readListed j) := by
  rw [readListed,entries]
  cases found : j.field? "filters" with
  | none => exact .held (ifPresent_of_none found) (.nothing [])
  | some value =>
    rw [ifPresent_iff found]
    cases value with
    | arr items => exact .held ⟨items,rfl⟩ (readFilters_enforces 0 items)
    | _ =>
      refine .refused ?_
      rintro ⟨items,same⟩
      cases same

theorem fromJson_enforces {j : Json} (bounded : j.Bounded) : Enforces (documentDemands j) (fromJson j) := by
  cases object : j.isObject with
  | false =>
    rw [fromJson,object]
    refine .refused fun fields => ?_
    rw [← isObject_iff,object] at fields
    cases fields
  | true =>
    rw [fromJson_object object]
    refine .held (isObject_iff.mp object) ((readCapacity_enforces bounded 16).step fun capacity _ => ?_)
    refine (FilterConfig.readField_enforces FilterConfig.asString?_reads j "log_level" "" "info").step
      fun level _ => ?_
    exact (readListed_enforces j).map fun filters => SessionConfig.mk capacity level filters

/-- What is demanded of an entry of a configuration, the one at this place of the list. -/
def entryDemands (filters : List FilterConfig) (f : FilterConfig) (index : Nat) : List Demand :=
  [⟨.invalidConfig (place index ++ ".name") "Filter name cannot be empty",f.name ≠ ""⟩,
    ⟨.invalidConfig (place index ++ ".type") "Filter type cannot be empty",f.type ≠ ""⟩,
    ⟨.invalidConfig (place index ++ ".name") ("Duplicate filter name '" ++ f.name ++ "'"),
      ∀ earlier ∈ filters.take index, earlier.name ≠ f.name⟩]

/-- What is demanded of a configuration, in order. -/
def demands (c : SessionConfig) : List Demand :=
  [⟨.invalidConfig "write_queue_capacity" "Capacity must be greater than 0",0 < c.writeQueueCapacity.toNat⟩,
    ⟨.invalidConfig "write_queue_capacity" "Capacity must not exceed 16777216",
      c.writeQueueCapacity.toNat ≤ 2 ^ 24⟩,
    ⟨.invalidConfig "log_level" ("Unknown log level '" ++ c.logLevel ++ "'"),
      ∃ row ∈ Logging.Level.table, c.logLevel = row.1 ∨ c.logLevel = row.2.1⟩] ++
  c.filters.zipIdx.flatMap fun (f, index) => entryDemands c.filters f index

theorem checkFilters_enforces (done rest : List FilterConfig) (earlier : List String)
    (names : ∀ name, name ∈ earlier ↔ name ∈ done.map (·.name)) :
    Enforces ((rest.zipIdx done.length).flatMap fun (f, index) => entryDemands (done ++ rest) f index)
      (checkFilters done.length earlier rest) := by
  -- `done` are the entries passed without an objection, whose names are the earlier ones.
  induction rest generalizing done earlier with
  | nil => exact .nothing ()
  | cons f rest ih =>
    have next := ih (done ++ [f]) (f.name :: earlier) (by simp [names,or_comm])
    rw [List.append_assoc,List.singleton_append,List.length_append,List.length_singleton] at next
    have front : (done ++ f :: rest).take done.length = done := by simp
    have taken : earlier.contains f.name = true ↔ ∃ other ∈ done, other.name = f.name := by
      rw [List.contains_iff_mem,names]
      simp
    rw [List.zipIdx_cons,List.flatMap_cons,checkFilters]
    dsimp only [entryDemands]
    rw [front]
    split
    · rename_i nameless
      exact .refused fun named => named (String.isEmpty_iff.mp nameless)
    · rename_i named
      refine .held (fun empty => named (String.isEmpty_iff.mpr empty)) ?_
      split
      · rename_i typeless
        exact .refused fun typed => typed (String.isEmpty_iff.mp typeless)
      · rename_i typed
        refine .held (fun empty => typed (String.isEmpty_iff.mpr empty)) ?_
        split
        · rename_i used
          obtain ⟨other,member,same⟩ := taken.mp used
          exact .refused fun fresh => fresh other member same
        · rename_i fresh
          exact .held (fun other member same => fresh (taken.mpr ⟨other,member,same⟩)) next

theorem parse?_isNone {text : String} : (Logging.Level.parse? text).isNone = true ↔
    ¬ ∃ row ∈ Logging.Level.table, text = row.1 ∨ text = row.2.1 := by
  rw [Logging.Level.parse?,Option.isNone_map]
  simp only [Option.isNone_iff_eq_none,List.find?_eq_none]
  simp

theorem validate_enforces (c : SessionConfig) : Enforces c.demands c.validate := by
  rw [validate_eq]
  split
  · rename_i zero
    exact .refused (by simp [zero])
  · rename_i positive
    have limit : c.writeQueueCapacity > maximumCapacity ↔ ¬ c.writeQueueCapacity.toNat ≤ 2 ^ 24 := by
      rw [gt_iff_lt,UInt64.lt_iff_toNat_lt,Nat.not_le]
      rfl
    refine .held (Nat.pos_of_ne_zero fun none => positive (UInt64.toNat_inj.mp none)) ?_
    split
    · rename_i beyond
      exact .refused (limit.mp beyond)
    · rename_i bounded
      refine .held (Classical.not_not.mp fun beyond => bounded (limit.mpr beyond)) ?_
      split
      · rename_i unknown
        exact .refused (parse?_isNone.mp unknown)
      · rename_i known
        rw [parse?_isNone,Classical.not_not] at known
        refine .held known ?_
        exact checkFilters_enforces [] c.filters [] (by simp)

theorem documentDemands_named {j : Json} {demand : Demand} (member : demand ∈ documentDemands j) :
    ∃ field, demand.failure.configField? = some field := by
  rcases List.mem_append.mp member with first | rest
  · simp only [List.mem_cons,List.not_mem_nil,or_false] at first
    rcases first with rfl | rfl | rfl | rfl <;> exact ⟨_,rfl⟩
  · obtain ⟨⟨item,index⟩,-,inside⟩ := List.mem_flatMap.mp rest
    simp only [FilterConfig.demands,List.mem_cons,List.not_mem_nil,or_false] at inside
    rcases inside with rfl | rfl | rfl | rfl | rfl <;> exact ⟨_,rfl⟩

/-- A document is read if every place in it has the right type, and a configuration accepted if it makes
sense; otherwise the failure is that of the first place, in order, where something is wrong. Reading and
checking let no failure out that does not name its place. -/
theorem reading_enforces {j : Json} (bounded : j.Bounded) :
    Enforces (documentDemands j) (fromJson j) ∧ ((∃ c, fromJson j = .ok c) ↔ Readable j) ∧
    (∀ c : SessionConfig, Enforces c.demands c.validate ∧ (c.validate = .ok () ↔ c.Sound)) ∧
    ∀ failure, (do (← fromJson j).validate) = .error failure →
      ∃ field, failure.configField? = some field := by
  have enforced := fromJson_enforces bounded
  refine ⟨enforced,enforced.succeeds_iff.trans documentDemands_met_iff,
    fun c => ⟨validate_enforces c,validate_eq_ok_iff⟩,fun failure refused => ?_⟩
  cases read : fromJson j with
  | error other =>
    rw [read] at refused
    cases refused
    obtain ⟨unmet,⟨before,after,whole,-,-⟩,rfl⟩ := enforced.error read
    have member : unmet ∈ documentDemands j := by simp [whole]
    exact documentDemands_named member
  | ok c =>
    rw [read] at refused
    obtain ⟨field,reason,rfl⟩ := validate_error refused
    exact ⟨field,rfl⟩

/-- Two entries are wrong in one document, the first of them twice; and a configuration has an entry
without a type that uses the name of another. -/
theorem reading_enforces_entries :
    let j : Json := .obj [("filters",.arr [.obj [("name",.str "a")],
      .obj [("config",.arr []),("enabled",.int 1)],.null]),("write_queue_capacity",.int 0)]
    let c : SessionConfig := { filters := [{ name := "a", type := "noop" },{ name := "a" }] }
    j.Bounded ∧
      (∃ unmet, FirstUnmet (documentDemands j) unmet ∧
        unmet.failure = .malformedConfig "filters[1].enabled") ∧
      ∃ unmet, FirstUnmet c.demands unmet ∧
        unmet.failure = .invalidConfig "filters[1].type" "Filter type cannot be empty" := by
  intro j c
  have bounded : j.Bounded := by simp [j]
  obtain ⟨read,-,checked,-⟩ := reading_enforces bounded
  exact ⟨bounded,read.error rfl,(checked c).1.error rfl⟩

end SessionConfig
end SessionPipeline
