import SessionPipeline.Json.Basic
import SessionPipeline.Failure
import SessionPipeline.Logging.Level

/-!
The configuration of a session: the capacity of its write queue, a log level and the filters of its
chain. Reading it from JSON checks types and names the first place that is wrong; whether the values
make sense is checked apart.
-/
namespace SessionPipeline

structure FilterConfig where
  name : String := ""
  type : String := ""
  enabled : Bool := true
  config : Json := .obj []
  deriving Inhabited

namespace FilterConfig

def within (field key : String) : String := if field.isEmpty then key else field ++ "." ++ key

def readField {α : Type} (read : Json → Option α) (j : Json) (key field : String) (default : α) :
    Except Failure α :=
  match j.field? key with
  | none => .ok default
  | some value =>
    match read value with
    | some a => .ok a
    | none => .error (.malformedConfig (within field key))

def readConfig (j : Json) (field : String) : Except Failure Json :=
  match j.field? "config" with
  | none => .ok (.obj [])
  | some config =>
    if config.isObject then .ok config
    else .error (.invalidConfig (field ++ ".config") "Filter config must be an object")

def fromJson (j : Json) (field : String) : Except Failure FilterConfig := do
  if !j.isObject then throw (.invalidConfig field "Filter entry must be an object")
  let name ← readField Json.asString? j "name" field ""
  let type ← readField Json.asString? j "type" field ""
  let enabled ← readField Json.asBool? j "enabled" field true
  let config ← readConfig j field
  return { name := name, type := type, enabled := enabled, config := config }

def toJson (c : FilterConfig) : Json :=
  .object [("name", .str c.name), ("type", .str c.type), ("enabled", .bool c.enabled),
    ("config", c.config)]

end FilterConfig

structure SessionConfig where
  writeQueueCapacity : UInt64 := 16
  logLevel : String := "info"
  filters : List FilterConfig := []
  deriving Inhabited

namespace SessionConfig

def maximumCapacity : UInt64 := 16777216

def readCapacity (j : Json) (default : UInt64) : Except Failure UInt64 :=
  match j.field? "write_queue_capacity" with
  | none => .ok default
  | some value =>
    match value.asInt64? with
    | some n =>
      if n < 0 then
        .error (.invalidConfig "write_queue_capacity" "Capacity must be a non-negative integer")
      else .ok n.toNat.toUInt64
    | none =>
      .error (.invalidConfig "write_queue_capacity" "Capacity must be a non-negative integer")

def place (index : Nat) : String := "filters[" ++ toString index ++ "]"

def readFilters (index : Nat) : List Json → Except Failure (List FilterConfig)
  | [] => .ok []
  | item :: rest => do
    let first ← FilterConfig.fromJson item (place index)
    let others ← readFilters (index + 1) rest
    return first :: others

def fromJson (j : Json) : Except Failure SessionConfig := do
  if !j.isObject then throw (.invalidConfig "<root>" "Configuration must be an object")
  let defaults : SessionConfig := {}
  let capacity ← readCapacity j defaults.writeQueueCapacity
  let level ← FilterConfig.readField Json.asString? j "log_level" "" defaults.logLevel
  let filters ← match j.field? "filters" with
    | none => .ok []
    | some (.arr items) => readFilters 0 items
    | some _ => .error (.invalidConfig "filters" "Filters must be an array")
  return ⟨capacity, level, filters⟩

def toJson (c : SessionConfig) : Json :=
  .object [("write_queue_capacity", .int c.writeQueueCapacity.toNat), ("log_level", .str c.logLevel),
    ("filters", .arr (c.filters.map FilterConfig.toJson))]

/-- Names must be there and differ, types must be there; `earlier` holds the names met before. -/
def checkFilters (index : Nat) (earlier : List String) : List FilterConfig → Except Failure Unit
  | [] => .ok ()
  | f :: rest =>
    if f.name.isEmpty then
      .error (.invalidConfig (place index ++ ".name") "Filter name cannot be empty")
    else if f.type.isEmpty then
      .error (.invalidConfig (place index ++ ".type") "Filter type cannot be empty")
    else if earlier.contains f.name then
      .error (.invalidConfig (place index ++ ".name") ("Duplicate filter name '" ++ f.name ++ "'"))
    else checkFilters (index + 1) (f.name :: earlier) rest

def validate (c : SessionConfig) : Except Failure Unit := do
  if c.writeQueueCapacity == 0 then
    throw (.invalidConfig "write_queue_capacity" "Capacity must be greater than 0")
  if c.writeQueueCapacity > maximumCapacity then
    throw (.invalidConfig "write_queue_capacity"
      ("Capacity must not exceed " ++ toString maximumCapacity.toNat))
  if (Logging.Level.parse? c.logLevel).isNone then
    throw (.invalidConfig "log_level" ("Unknown log level '" ++ c.logLevel ++ "'"))
  checkFilters 0 [] c.filters

def level (c : SessionConfig) : Logging.Level := Logging.Level.parse c.logLevel

end SessionConfig
end SessionPipeline
