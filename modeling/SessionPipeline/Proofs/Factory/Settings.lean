import SessionPipeline.Proofs.Config.Demands
import SessionPipeline.Proofs.Factory.Registry
import SessionPipeline.Proofs.Json.Merging

/-! Filters that built-in factories make, and the settings they carry. A factory makes a filter of every
configuration that it takes, and the filter has what the configuration says once it is merged into the
defaults: no more, no less. -/
namespace SessionPipeline

namespace EventKind

theorem name_injective {a b : EventKind} (same : a.name = b.name) : a = b := by
  revert same
  cases a <;> cases b <;> simp [name]

theorem ofName?_eq_some_iff {text : String} {event : EventKind} :
    ofName? text = some event ↔ event.name = text := by
  have there : event ∈ all := by cases event <;> decide
  constructor
  · intro found
    simpa using List.find?_some found
  · rintro rfl
    rw [ofName?]
    cases found : all.find? (·.name == event.name) with
    | none => simpa using List.find?_eq_none.mp found event there
    | some other =>
      have same : other.name = event.name := by simpa using List.find?_some found
      rw [name_injective same]

theorem ofName?_isSome {text : String} : (ofName? text).isSome = true ↔ ∃ event : EventKind, event.name = text := by
  rw [Option.isSome_iff_exists]
  exact exists_congr fun event => ofName?_eq_some_iff

end EventKind

namespace Factory

variable {config : Json} {event : EventKind}

/-- What a factory reads: the defaults with the fields of an object merged in, the defaults alone where
there is nothing to merge, and any other value in their place. -/
inductive Merges (defaults : Json) : Json → Json → Prop
  | nothing : Merges defaults .null defaults
  | fields {patch fields : List (String × Json)} (rising : Rising fields)
      (patched : ∀ key, fields.lookup key = Json.patched (defaults.field? key) (patch.lookup key)) :
      Merges defaults (.obj patch) (.obj fields)
  | other {config : Json} (given : config ≠ .null) (whole : ∀ fields, config ≠ .obj fields) :
      Merges defaults config config

/-- Defaults and a configuration leave no choice. -/
theorem Merges.unique {defaults merged merged' : Json} (merges : Merges defaults config merged)
    (merges' : Merges defaults config merged') : merged = merged' := by
  cases merges with
  | nothing =>
    cases merges' with
    | nothing => rfl
    | other given => exact absurd rfl given
  | fields rising patched =>
    cases merges' with
    | fields rising' patched' =>
      rw [Json.ext_of_rising rising rising' fun key => (patched key).trans (patched' key).symm]
    | other _ whole => exact absurd rfl (whole _)
  | other given whole =>
    cases merges' with
    | nothing => exact absurd rfl given
    | fields => exact absurd rfl (whole _)
    | other => rfl

theorem merges_effective {defaults : Json} (neat : defaults.Neat) (distinct : config.Distinct) :
    Merges defaults config (effective defaults config) := by
  cases config with
  | null => exact .nothing
  | obj patch =>
    have patched := Json.field?_mergePatch neat (distinct patch rfl)
    obtain ⟨fields,made⟩ := Json.mergePatch_obj defaults patch
    have rising := Json.neat_mergePatch neat (.obj patch) fields made
    rw [made] at patched
    rw [effective,made]
    exact .fields rising patched
  | _ => exact .other nofun nofun

/-- The value names a level. -/
def NamesLevel (value : Json) (level : Logging.Level) : Prop :=
  ∃ text, value = .str text ∧ Logging.Level.parse? text = some level

/-- What a configuration has for one event alone. -/
def ownLevel? (config : Json) (event : EventKind) : Option Json :=
  (config.field? "levels").bind (·.field? event.name)

/-- The level at which an event is logged: its own, else the one for all, else that of the kind of filter. -/
inductive LogsAt (config : Json) (event : EventKind) : Logging.Level → Prop
  | own {value : Json} {level : Logging.Level} (listed : ownLevel? config event = some value)
      (named : NamesLevel value level) : LogsAt config event level
  | common {value : Json} {level : Logging.Level} (unlisted : ownLevel? config event = none)
      (given : config.field? "level" = some value) (named : NamesLevel value level) : LogsAt config event level
  | initial (unlisted : ownLevel? config event = none) (absent : config.field? "level" = none) :
      LogsAt config event (LogSettings.defaultLevel event)

theorem NamesLevel.unique {value : Json} {level other : Logging.Level} (named : NamesLevel value level)
    (named' : NamesLevel value other) : level = other := by
  obtain ⟨text,rfl,parsed⟩ := named
  obtain ⟨text',same,parsed'⟩ := named'
  cases same
  exact Option.some.inj (parsed.symm.trans parsed')

/-- A configuration leaves no choice. -/
theorem LogsAt.unique {level other : Logging.Level} (logs : LogsAt config event level)
    (logs' : LogsAt config event other) : level = other := by
  cases logs with
  | own listed named =>
    cases logs' with
    | own listed' named' =>
      cases listed.symm.trans listed'
      exact named.unique named'
    | common unlisted => cases listed.symm.trans unlisted
    | initial unlisted => cases listed.symm.trans unlisted
  | common unlisted given named =>
    cases logs' with
    | own listed => cases listed.symm.trans unlisted
    | common _ given' named' =>
      cases given.symm.trans given'
      exact named.unique named'
    | initial _ absent => cases given.symm.trans absent
  | initial unlisted absent =>
    cases logs' with
    | own listed => cases listed.symm.trans unlisted
    | common _ given => cases given.symm.trans absent
    | initial => rfl

/-- The logger of a configuration. -/
def loggerOf (config : Json) : String :=
  match config.field? "logger" with
  | some (.str name) => name
  | _ => LogSettings.defaultLogger

/-- The filter is set as the configuration says. -/
inductive Carries (config : Json) : Factory → Filter → Prop
  | noop : Carries config .noop .noop
  | logging {settings : LogSettings} (logger : settings.logger = loggerOf config)
      (levels : ∀ event, LogsAt config event (settings.level event)) :
      Carries config .logging (.logging settings)
  | codec {maximum : UInt64} (given : config.field? "max_frame_length" = some (.int maximum.toNat))
      (least : 1 ≤ maximum.toNat) (most : maximum.toNat < 2 ^ 63) : Carries config .codec (.codec maximum maximum)

/-- What may stand in a configuration for a logging filter. -/
structure Loggable (config : Json) : Prop where
  object : ∃ fields, config = .obj fields
  logger : IfPresent config "logger" fun value => ∃ name, value = .str name
  level : IfPresent config "level" fun value => ∃ level, NamesLevel value level
  levels : IfPresent config "levels" fun value => ∃ levels, value = .obj levels ∧
    ∀ entry ∈ levels, (∃ event : EventKind, event.name = entry.1) ∧ ∃ level, NamesLevel entry.2 level

/-- The configurations that a built-in factory can make a filter of. -/
def Settable : Factory → Json → Prop
  | noop, config => ∃ fields, config = .obj fields
  | logging, config => Loggable config
  | codec, config => ∃ n : Int, config.field? "max_frame_length" = some (.int n) ∧ 1 ≤ n ∧ n < 2 ^ 63
  | custom .., _ => False

theorem isLevel_iff {value : Json} : isLevel value = true ↔ ∃ level, NamesLevel value level := by
  cases value <;> simp [isLevel,NamesLevel,Option.isSome_iff_exists]

theorem holdsIfPresent_iff {key : String} {test : Json → Bool} :
    holdsIfPresent config key test = true ↔ IfPresent config key (test · = true) := by
  unfold holdsIfPresent IfPresent
  cases config.field? key <;> simp

theorem validLevels_iff {value : Json} : validLevels value = true ↔ ∃ levels, value = .obj levels ∧
    ∀ entry ∈ levels, (∃ event : EventKind, event.name = entry.1) ∧ ∃ level, NamesLevel entry.2 level := by
  cases value <;> simp [validLevels,EventKind.ofName?_isSome,isLevel_iff]

theorem validLogging_iff : validLogging config = true ↔ Loggable config := by
  simp only [validLogging,Bool.and_eq_true,holdsIfPresent_iff,isObject_iff,isLevel_iff,validLevels_iff,
    ← FilterConfig.asString?_reads,Option.isSome_iff_exists]
  constructor
  · rintro ⟨⟨⟨object,logger⟩,level⟩,levels⟩
    exact ⟨object,logger,level,levels⟩
  · rintro ⟨object,logger,level,levels⟩
    exact ⟨⟨⟨object,logger⟩,level⟩,levels⟩

/-- An integer of 64 bits that is positive when it is read with a sign. -/
theorem positive_bmod {n : Int} (low : -2 ^ 63 ≤ n) (high : n < 2 ^ 64) :
    0 < n.bmod UInt64.size ↔ 1 ≤ n ∧ n < 2 ^ 63 := by
  simp only [UInt64.size,Int.bmod_def]
  omega

theorem validCodec_iff (bounded : config.Bounded) : validCodec config = true ↔
    ∃ n : Int, config.field? "max_frame_length" = some (.int n) ∧ 1 ≤ n ∧ n < 2 ^ 63 := by
  rw [validCodec]
  cases found : config.field? "max_frame_length" with
  | none => simp
  | some value =>
    cases value with
    | int n =>
      obtain ⟨low,high⟩ := Json.bounded_int.mp (bounded.field? found)
      simp [Json.asInt64?,positive_bmod low high]
    | _ => simp [Json.asInt64?]

/-- The check of a built-in factory is whether a filter can be made. -/
theorem accepts_iff (factory : Factory) (bounded : config.Bounded) :
    factory.accepts config = true ↔ factory.Settable config := by
  cases factory with
  | noop => exact isObject_iff
  | logging => exact validLogging_iff
  | codec => exact validCodec_iff bounded
  | custom => simp [accepts,Settable]

theorem readText_namesLevel {value : Json} {level : Logging.Level} (named : NamesLevel value level) :
    ∃ text, readText value = .ok text ∧ Logging.Level.parse text = level := by
  obtain ⟨text,rfl,parsed⟩ := named
  exact ⟨text,rfl,by rw [Logging.Level.parse,parsed]; rfl⟩

/-- Entries for single events, each event having one at most, are set one by one; what they do not name
stays, and so does the logger. -/
theorem withLevels_level {settings set : LogSettings} {levels : List (String × Json)}
    (distinct : (levels.map (·.1)).Nodup)
    (named : ∀ entry ∈ levels, (∃ event : EventKind, event.name = entry.1) ∧ ∃ level, NamesLevel entry.2 level)
    (read : withLevels settings levels = .ok set) : set.logger = settings.logger ∧
      ∀ event : EventKind, match levels.lookup event.name with
        | some value => NamesLevel value (set.level event)
        | none => set.level event = settings.level event := by
  induction levels generalizing settings with
  | nil =>
    cases read
    exact ⟨rfl,fun _ => rfl⟩
  | cons entry rest ih =>
    obtain ⟨name,value⟩ := entry
    obtain ⟨⟨⟨other,rfl⟩,level,own⟩,later⟩ := List.forall_mem_cons.mp named
    obtain ⟨fresh,distinct⟩ := List.nodup_cons.mp distinct
    obtain ⟨text,taken,parsed⟩ := readText_namesLevel own
    rw [withLevels,EventKind.ofName?_eq_some_iff.mpr rfl,taken] at read
    obtain ⟨logger,levels⟩ := ih distinct later read
    refine ⟨logger,fun event => ?_⟩
    have onward := levels event
    rw [lookup_field]
    by_cases here : event = other
    · subst here
      rw [lookup_fresh fresh] at onward
      rw [if_pos rfl]
      have kept : set.level event = level := by
        rw [onward,parsed]
        exact if_pos rfl
      exact kept ▸ own
    · rw [if_neg fun same => here (EventKind.name_injective same)]
      cases found : rest.lookup event.name with
      | none =>
        rw [found] at onward
        exact onward.trans (if_neg here)
      | some value =>
        rw [found] at onward
        exact onward

/-- What is set for all events before single ones are looked at. -/
def commonSettings (config : Json) (logger : String) : Except Failure LogSettings :=
  match config.field? "level" with
  | some level => (readText level).map fun text =>
      (LogSettings.initial logger).setAllLevels (Logging.Level.parse text)
  | none => .ok (.initial logger)

theorem commonSettings_level {logger : String} {settings : LogSettings} (loggable : Loggable config)
    (read : commonSettings config logger = .ok settings) : settings.logger = logger ∧
      ∀ event, ownLevel? config event = none → LogsAt config event (settings.level event) := by
  unfold commonSettings at read
  cases given : config.field? "level" with
  | none =>
    rw [given] at read
    cases read
    exact ⟨rfl,fun event unlisted => .initial unlisted given⟩
  | some value =>
    obtain ⟨level,named⟩ := loggable.level value given
    obtain ⟨text,taken,parsed⟩ := readText_namesLevel named
    rw [given] at read
    dsimp only at read
    rw [taken] at read
    cases read
    refine ⟨rfl,fun event unlisted => .common unlisted given ?_⟩
    rw [← parsed] at named
    exact named

theorem logSettings_eq (config : Json) (logger : String) : logSettings config logger = (do
    let settings ← commonSettings config logger
    match config.field? "levels" with
    | some levels => withLevels settings levels.members
    | none => .ok settings) := by
  unfold logSettings commonSettings
  cases config.field? "level" <;> rfl

/-- The settings that are read are the ones that the configuration describes. -/
theorem logSettings_levels {logger : String} {settings : LogSettings} (loggable : Loggable config)
    (neat : ∀ value, config.field? "levels" = some value → value.Neat)
    (read : logSettings config logger = .ok settings) :
    settings.logger = logger ∧ ∀ event, LogsAt config event (settings.level event) := by
  rw [logSettings_eq] at read
  obtain ⟨common,first,read⟩ := ok_of_except_bind read
  obtain ⟨named,levels⟩ := commonSettings_level loggable first
  cases found : config.field? "levels" with
  | none =>
    rw [found] at read
    cases read
    refine ⟨named,fun event => levels event ?_⟩
    rw [ownLevel?,found]
    rfl
  | some value =>
    obtain ⟨entries,rfl,known⟩ := loggable.levels value found
    rw [found] at read
    obtain ⟨logger,single⟩ := withLevels_level (neat _ found entries rfl).keys known read
    refine ⟨logger.trans named,fun event => ?_⟩
    have own : ownLevel? config event = entries.lookup event.name := by
      rw [ownLevel?,found]
      rfl
    have set := single event
    cases listed : entries.lookup event.name with
    | none =>
      rw [listed] at set own
      exact set ▸ levels event own
    | some value =>
      rw [listed] at set own
      exact .own own set

theorem loggerName_eq {logger : String} (loggable : Loggable config)
    (read : loggerName config = .ok logger) : logger = loggerOf config := by
  obtain ⟨fields,rfl⟩ := loggable.object
  have object : (Json.obj fields).isObject = true := rfl
  rw [loggerName,if_pos object] at read
  unfold loggerOf
  cases given : (Json.obj fields).field? "logger" with
  | none =>
    rw [given] at read
    cases read
    rfl
  | some value =>
    obtain ⟨name,rfl⟩ := loggable.logger value given
    rw [given] at read
    cases read
    rfl

/-- A filter that is made of a configuration carries it. -/
theorem make_carries {factory : Factory} {filter : Filter} (bounded : config.Bounded)
    (neat : ∀ value, config.field? "levels" = some value → value.Neat)
    (accepted : factory.accepts config = true) (made : factory.make config = .ok filter) :
    Carries config factory filter := by
  cases factory with
  | noop =>
    cases made
    exact .noop
  | logging =>
    have loggable := validLogging_iff.mp accepted
    obtain ⟨logger,named,made⟩ := ok_of_except_bind made
    obtain ⟨settings,read,made⟩ := ok_of_except_bind made
    cases made
    obtain ⟨logger,levels⟩ := logSettings_levels loggable neat read
    exact .logging (logger.trans (loggerName_eq loggable named)) levels
  | codec =>
    obtain ⟨n,given,least,most⟩ := (validCodec_iff bounded).mp accepted
    obtain ⟨maximum,read,made⟩ := ok_of_except_bind made
    cases made
    have taken : maximum.toNat = n.toNat := by
      rw [codecMaximum,given] at read
      cases read
      have inside : n.emod UInt64.size = n :=
        Int.emod_eq_of_lt (by omega) (by simp only [UInt64.size]; omega)
      simp only [inside,Nat.toUInt64,UInt64.toNat_ofNat']
      omega
    have same : (maximum.toNat : Int) = n := by omega
    exact .codec (same ▸ given) (by omega) (by omega)
  | custom => cases made

end Factory

namespace Factory

variable {type : String} {factory : Factory}

/-- The defaults of a built-in factory have few fields, and no levels for single events. -/
theorem defaults_builtIn (known : builtIn.lookup type = some factory) : factory.defaults.Bounded ∧
    ∃ fields, factory.defaults = .obj fields ∧ Rising fields ∧ ∀ field ∈ fields, field.2.Neat := by
  rcases Effect.lookup_builtIn known with rfl | rfl | rfl
  · exact ⟨.obj nofun,[],rfl,.nil,nofun⟩
  · refine ⟨.obj (by simp),_,rfl,List.pairwise_singleton _ _,fun field member fields same => ?_⟩
    rw [List.mem_singleton.mp member] at same
    cases same
  · refine ⟨.obj (by simp [Frame.defaultMaximum]),_,rfl,List.pairwise_singleton _ _,
      fun field member fields same => ?_⟩
    rw [List.mem_singleton.mp member] at same
    cases same

theorem neat_defaults (known : builtIn.lookup type = some factory) : factory.defaults.Neat := by
  obtain ⟨-,fields,defaults,rising,-⟩ := defaults_builtIn known
  rw [defaults]
  rintro _ ⟨⟩
  exact rising

theorem bounded_effective {config : Json} (known : builtIn.lookup type = some factory)
    (bounded : config.Bounded) : (effective factory.defaults config).Bounded := by
  cases config with
  | null => exact (defaults_builtIn known).1
  | obj patch => exact Json.bounded_mergePatch (defaults_builtIn known).1 bounded
  | _ => exact bounded

/-- Whatever order a configuration is written in, objects in it that a factory looks into are in order. -/
theorem neat_effective {config value : Json} {key : String} (known : builtIn.lookup type = some factory)
    (accepted : factory.accepts (effective factory.defaults config) = true)
    (found : (effective factory.defaults config).field? key = some value) : value.Neat := by
  obtain ⟨-,fields,defaults,-,neat⟩ := defaults_builtIn known
  rw [defaults] at found accepted
  have listed {fields : List (String × Json)} (neat : ∀ field ∈ fields, field.2.Neat)
      (found : fields.lookup key = some value) : value.Neat := by
    have there := Json.neat_lookup neat key
    rwa [found] at there
  cases config with
  | null => exact listed neat found
  | obj patch =>
    rw [effective,Json.mergePatch] at found
    exact listed (Json.neat_mergeFields neat patch) found
  | _ => cases found

end Factory

namespace Effect

variable {σ : Type} {w : World σ} {type : String} {factory : Factory}

/-- A built-in factory that is registered takes a configuration, once it is merged into its defaults,
exactly if it can make a filter of it; then the registry hands out the filter, which carries what the merged
configuration says, and otherwise it says that the configuration is invalid and makes nothing. A null in the
configuration takes the field out of what is merged. -/
theorem createFilter_carries (perform : Perform σ) {config : Json} (bounded : config.Bounded)
    (known : Factory.builtIn.lookup type = some factory) (registered : w.store.factory? type = some factory) :
    let merged := Factory.effective factory.defaults config
    (config.Distinct → Factory.Merges factory.defaults config merged) ∧
    ∃ valid w', validateWith perform factory merged w = .ok valid w ∧ (valid = true ↔ factory.Settable merged) ∧
      match valid with
      | true => ∃ filter made, factory.Carries merged filter ∧
        createWith perform factory merged w = .ok (some w.store.filters.size) made ∧
        made.store.filters = w.store.filters.push filter ∧
        createFilter perform type config w = .ok w.store.filters.size w' ∧
        w'.store.filters = w.store.filters.push filter
      | false => createFilter perform type config w =
          .error (.failed (.filterCreation type "invalid configuration")) w' ∧
        w'.store.filters = w.store.filters := by
  intro merged
  refine ⟨Factory.merges_effective (Factory.neat_defaults known),?_⟩
  have sound := Factory.accepts_iff factory (Factory.bounded_effective known bounded)
  have validated := validateWith_builtIn perform merged w known
  cases accepted : factory.accepts merged with
  | true =>
    rw [accepted] at validated sound
    obtain ⟨filter,w',made,created,filters,-⟩ := createFilter_accepted perform known registered accepted
    obtain ⟨u,direct,kept,-⟩ := createWith_made perform w made
    have carries := Factory.make_carries (Factory.bounded_effective known bounded)
      (fun value found => Factory.neat_effective known accepted found) accepted made
    exact ⟨true,w',validated,sound,filter,u,carries,direct,kept,created,filters⟩
  | false =>
    rw [accepted] at validated sound
    obtain ⟨w',refused,kept⟩ := createFilter_rejected perform known registered accepted
    exact ⟨false,w',validated,sound,refused,kept⟩

/-- Levels for all and for one, in the order in which a level for one is not overruled, with nulls for an
event and for the logger. -/
theorem createFilter_carries_levels :
    let config : Json := .obj [("levels",.obj [("sessionIdle",.str "ERROR"),("filterWrite",.null)]),
      ("level",.str "notice"),("logger",.null)]
    let w : World Unit := { store := { factories := some Factory.builtIn }, own := () }
    config.Bounded ∧ Factory.builtIn.lookup "logging" = some .logging ∧
      w.store.factory? "logging" = some .logging ∧
      ∃ settings w', createFilter (performWith 0) "logging" config w = .ok 0 w' ∧
        w'.store.filters = #[.logging settings] ∧ settings.logger = "Filter.logging" ∧
        settings.level .sessionIdle = .error ∧ settings.level .filterWrite = .notice := by
  intro config w
  have bounded : config.Bounded := by simp [config]
  have known : Factory.builtIn.lookup "logging" = some .logging := rfl
  refine ⟨bounded,known,rfl,?_⟩
  obtain ⟨-,valid,w',validated,-,outcome⟩ :=
    createFilter_carries (w := w) (performWith 0) bounded known rfl
  have taken : validateWith (performWith 0) .logging (Factory.effective Factory.logging.defaults config) w =
      .ok true w := rfl
  obtain rfl : true = valid := by
    rw [taken] at validated
    cases validated
    rfl
  obtain ⟨filter,made,carries,-,-,created,filters⟩ := outcome
  cases carries with
  | logging logger levels =>
    rename_i settings
    refine ⟨settings,w',created,filters,logger,?_,?_⟩
    · exact (levels .sessionIdle).unique (.own rfl ⟨"ERROR",rfl,rfl⟩)
    · exact (levels .filterWrite).unique (.common rfl rfl ⟨"notice",rfl,rfl⟩)

end Effect
end SessionPipeline
