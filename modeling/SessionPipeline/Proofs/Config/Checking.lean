import SessionPipeline.Config.Basic
import SessionPipeline.Factory.Basic

/-! What a configuration that has been checked allows one to rely on: names that are there and differ,
and, for each type that is built in, that whatever its factory reads can be read. -/
namespace SessionPipeline

namespace SessionConfig

variable {config : SessionConfig} {index : Nat} {earlier : List String} {filters : List FilterConfig}
  {failure : Failure}

theorem checkFilters_error (refused : checkFilters index earlier filters = .error failure) :
    ∃ field reason, failure = .invalidConfig field reason := by
  induction filters generalizing index earlier with
  | nil => cases refused
  | cons f rest ih =>
    rw [checkFilters] at refused
    split at refused
    · exact ⟨_,_,(Except.error.inj refused).symm⟩
    · split at refused
      · exact ⟨_,_,(Except.error.inj refused).symm⟩
      · split at refused
        · exact ⟨_,_,(Except.error.inj refused).symm⟩
        · exact ih refused

theorem checkFilters_eq_ok_iff : checkFilters index earlier filters = .ok () ↔
    (∀ f ∈ filters, f.name ≠ "" ∧ f.type ≠ "" ∧ f.name ∉ earlier) ∧ (filters.map (·.name)).Nodup := by
  induction filters generalizing index earlier with
  | nil => simp [checkFilters]
  | cons f rest ih =>
    rw [checkFilters]
    split
    · rename_i nameless
      simp [String.isEmpty_iff.mp nameless]
    · rename_i named
      split
      · rename_i typeless
        simp [String.isEmpty_iff.mp typeless]
      · rename_i typed
        split
        · rename_i taken
          rw [List.contains_iff_mem] at taken
          simp [taken]
        · rename_i fresh
          rw [ih]
          rw [String.isEmpty_iff] at named typed
          rw [List.contains_iff_mem] at fresh
          simp only [List.mem_cons,List.map_cons,List.nodup_cons,List.mem_map,not_or,forall_eq_or_imp]
          grind

/-- What makes sense as a configuration. -/
structure Sound (config : SessionConfig) : Prop where
  positive : config.writeQueueCapacity ≠ 0
  bounded : config.writeQueueCapacity ≤ maximumCapacity
  level : (Logging.Level.parse? config.logLevel).isSome
  entries : ∀ f ∈ config.filters, f.name ≠ "" ∧ f.type ≠ ""
  distinct : (config.filters.map (·.name)).Nodup

theorem validate_eq (config : SessionConfig) : config.validate =
    if config.writeQueueCapacity = 0 then
      .error (.invalidConfig "write_queue_capacity" "Capacity must be greater than 0")
    else if config.writeQueueCapacity > maximumCapacity then
      .error (.invalidConfig "write_queue_capacity"
        ("Capacity must not exceed " ++ toString maximumCapacity.toNat))
    else if (Logging.Level.parse? config.logLevel).isNone then
      .error (.invalidConfig "log_level" ("Unknown log level '" ++ config.logLevel ++ "'"))
    else checkFilters 0 [] config.filters := by
  unfold validate
  simp only [beq_iff_eq]
  split
  · rfl
  · split
    · rfl
    · split <;> rfl

theorem validate_eq_ok_iff : config.validate = .ok () ↔ config.Sound := by
  rw [validate_eq]
  split
  · rename_i zero
    simp only [reduceCtorEq,false_iff]
    intro sound
    exact sound.positive zero
  · rename_i positive
    split
    · rename_i beyond
      simp only [reduceCtorEq,false_iff]
      intro sound
      exact UInt64.not_lt.mpr sound.bounded beyond
    · rename_i bounded
      split
      · rename_i unknown
        simp only [reduceCtorEq,false_iff]
        intro sound
        rw [Option.isNone_iff_eq_none] at unknown
        have known := sound.level
        rw [unknown] at known
        cases known
      · rename_i level
        rw [checkFilters_eq_ok_iff]
        constructor
        · rintro ⟨entries,distinct⟩
          refine ⟨positive,UInt64.not_lt.mp bounded,?_,?_,distinct⟩
          · simpa [Option.isSome_iff_ne_none] using level
          · intro f member
            exact ⟨(entries f member).1,(entries f member).2.1⟩
        · intro sound
          refine ⟨?_,sound.distinct⟩
          intro f member
          exact ⟨(sound.entries f member).1,(sound.entries f member).2,List.not_mem_nil⟩

/-- Whatever is wrong with a configuration, its field is named. -/
theorem validate_error (refused : config.validate = .error failure) :
    ∃ field reason, failure = .invalidConfig field reason := by
  rw [validate_eq] at refused
  split at refused
  · exact ⟨_,_,(Except.error.inj refused).symm⟩
  · split at refused
    · exact ⟨_,_,(Except.error.inj refused).symm⟩
    · split at refused
      · exact ⟨_,_,(Except.error.inj refused).symm⟩
      · exact checkFilters_error refused

end SessionConfig

namespace Factory

/-- Whether a built-in factory takes a configuration. -/
def accepts : Factory → Json → Bool
  | noop, config => config.isObject
  | logging, config => validLogging config
  | codec, config => validCodec config
  | custom .., _ => false

/-- The filter that a built-in factory makes. -/
def make : Factory → Json → Except Failure Filter
  | noop, _ => .ok .noop
  | logging, config => do
    let logger ← loggerName config
    return .logging (← logSettings config logger)
  | codec, config => do
    let maximum ← codecMaximum config
    return .codec maximum maximum
  | custom .., _ => .error .wrongType

theorem readText_of_isLevel {value : Json} (valid : isLevel value = true) :
    ∃ text, readText value = .ok text := by
  cases value with
  | str text => exact ⟨text,rfl⟩
  | _ => cases valid

theorem loggerName_of_valid {config : Json} (valid : validLogging config = true) :
    ∃ logger, loggerName config = .ok logger := by
  simp only [validLogging,holdsIfPresent,Bool.and_eq_true] at valid
  obtain ⟨⟨⟨object,logger⟩,_⟩,_⟩ := valid
  rw [loggerName,if_pos object]
  cases named : config.field? "logger" with
  | none => exact ⟨_,rfl⟩
  | some value =>
    rw [named] at logger
    obtain ⟨text,read⟩ := Option.isSome_iff_exists.mp logger
    simp [readText,read]

theorem withLevels_of_valid {levels : List (String × Json)} (settings : LogSettings)
    (valid : ∀ level ∈ levels, (EventKind.ofName? level.1).isSome ∧ isLevel level.2 = true) :
    ∃ set, withLevels settings levels = .ok set := by
  induction levels generalizing settings with
  | nil => exact ⟨settings,rfl⟩
  | cons level rest ih =>
    obtain ⟨known,readable⟩ := valid level List.mem_cons_self
    obtain ⟨event,named⟩ := Option.isSome_iff_exists.mp known
    obtain ⟨text,read⟩ := readText_of_isLevel readable
    rw [withLevels,named,read]
    exact ih _ fun other member => valid other (List.mem_cons_of_mem _ member)

theorem logSettings_of_valid {config : Json} (valid : validLogging config = true) (logger : String) :
    ∃ settings, logSettings config logger = .ok settings := by
  simp only [validLogging,holdsIfPresent,Bool.and_eq_true] at valid
  obtain ⟨⟨_,level⟩,levels⟩ := valid
  have single (settings : LogSettings) (value : Json) (found : config.field? "levels" = some value) :
      ∃ set, withLevels settings value.members = .ok set := by
    rw [found] at levels
    cases value with
    | obj fields =>
      apply withLevels_of_valid settings
      intro field member
      simpa using List.all_eq_true.mp levels field member
    | _ => cases levels
  rw [logSettings]
  cases first : config.field? "level" with
  | none =>
    cases found : config.field? "levels" with
    | none => exact ⟨_,rfl⟩
    | some value => exact single _ value found
  | some value =>
    rw [first] at level
    obtain ⟨text,read⟩ := readText_of_isLevel level
    dsimp only
    rw [read]
    cases found : config.field? "levels" with
    | none => exact ⟨_,rfl⟩
    | some value => exact single _ value found

theorem codecMaximum_of_valid {config : Json} (valid : validCodec config = true) :
    ∃ maximum, codecMaximum config = .ok maximum := by
  rw [validCodec] at valid
  rw [codecMaximum]
  cases found : config.field? "max_frame_length" with
  | none =>
    rw [found] at valid
    cases valid
  | some value =>
    rw [found] at valid
    cases value with
    | int n => exact ⟨_,rfl⟩
    | _ => cases valid

/-- What a factory takes it can read. -/
theorem make_of_accepts {factory : Factory} {config : Json} (valid : factory.accepts config = true) :
    ∃ filter, factory.make config = .ok filter := by
  cases factory with
  | noop => exact ⟨.noop,rfl⟩
  | logging =>
    obtain ⟨logger,named⟩ := loggerName_of_valid valid
    obtain ⟨settings,read⟩ := logSettings_of_valid valid logger
    exact ⟨.logging settings,by rw [make,named]; simp only [bind,Except.bind,read]; rfl⟩
  | codec =>
    obtain ⟨maximum,read⟩ := codecMaximum_of_valid valid
    exact ⟨.codec maximum maximum,by rw [make,read]; rfl⟩
  | custom => cases valid

end Factory
end SessionPipeline
