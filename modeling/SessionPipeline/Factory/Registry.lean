import SessionPipeline.Effect
import SessionPipeline.Json.Text

/-!
The registry of factories. It comes into being, with the built-in factories in it, when it is first
used; a name is registered once and stays until it is unregistered.
-/
namespace SessionPipeline.Effect

variable {σ : Type}

def registryLogger : String := "Filter.registry"

/-- A new filter; one that logs makes its logger known at once. -/
def makeFilter (f : Filter) : Effect σ FilterId := do
  match f with
  | .logging settings =>
    modifyStore fun s => { s with logging := (s.logging.obtain (Bytes.ofString settings.logger)).2 }
  | _ => pure ()
  newFilter f

def register (name : String) (factory : Option Factory) : Effect σ Bool := do
  match factory with
  | none => do
    log registryLogger .error ("Attempted to register null factory for filter: " ++ name)
    return false
  | some factory => do
    let table := (← store).factories.getD []
    if (table.lookup name).isSome then
      log registryLogger .warning
        ("Filter factory '" ++ name ++ "' already registered - ignoring duplicate")
      return false
    let table := insertField name factory table
    modifyStore fun s => { s with factories := some table }
    log registryLogger .debug ("Registered filter factory '" ++ name ++ "' version "
      ++ factory.metadata.version ++ " (total: " ++ toString table.length ++ ")")
    return true

def registerAll : List (String × Factory) → Effect σ Unit
  | [] => pure ()
  | (name, factory) :: rest => do
    let _ ← register name (some factory)
    registerAll rest

def registerBuiltIn : Effect σ Unit := registerAll Factory.builtIn

def openFactories : Effect σ Unit := do
  if (← store).factories.isNone then registerBuiltIn

def unregister (name : String) : Effect σ Bool := do
  let table := (← store).factories.getD []
  modifyStore fun s => { s with factories := some (table.filter (·.1 != name)) }
  return (table.lookup name).isSome

def validateWith (perform : Perform σ) (factory : Factory) (config : Json) : Effect σ Bool := do
  match factory with
  | .noop => return config.isObject
  | .logging => return Factory.validLogging config
  | .codec => return Factory.validCodec config
  | .custom _ _ code =>
    match ← perform (.run code (.validate config)) with
    | .flag valid => return valid
    | _ => return config.isObject

def createWith (perform : Perform σ) (factory : Factory) (config : Json) :
    Effect σ (Option FilterId) := do
  match factory with
  | .noop => return some (← makeFilter .noop)
  | .logging => do
    let logger ← ofExcept (Factory.loggerName config)
    let id ← makeFilter (.logging (.initial logger))
    let settings ← ofExcept (Factory.logSettings config logger)
    modifyFilter id (Filter.mapSettings fun _ => settings)
    return some id
  | .codec => do
    let maximum ← ofExcept (Factory.codecMaximum config)
    return some (← makeFilter (.codec maximum maximum))
  | .custom _ _ code =>
    match ← perform (.run code (.create config)) with
    | .filter id => return id
    | _ => return none

/-- A filter made from a valid configuration; a factory's failure is reported under the type. -/
def createValid (perform : Perform σ) (type : String) (factory : Factory) (config : Json) :
    Effect σ FilterId := do
  match ← attempt (createWith perform factory config) with
  | .error failure =>
    if failure.standard then
      log registryLogger .error ("Failed to create filter '" ++ type ++ "': " ++ failure.message)
      fail (.filterCreation type failure.message)
    else fail failure
  | .ok none => fail (.filterCreation type "factory returned null")
  | .ok (some filter) => do
    log registryLogger .debug ("Created filter instance of type '" ++ type ++ "'")
    return filter

/-- A filter of a registered type, made from the type's defaults and a configuration. -/
def createFilter (perform : Perform σ) (type : String) (config : Json) : Effect σ FilterId := do
  match (← store).factory? type with
  | none => do
    log registryLogger .error ("Unknown filter type '" ++ type ++ "' requested")
    fail (.filterCreation type "unknown filter type")
  | some factory => do
    let effective := Factory.effective factory.defaults config
    if !(← validateWith perform factory effective) then
      log registryLogger .error
        ("Invalid configuration for filter '" ++ type ++ "': " ++ effective.render)
      fail (.filterCreation type "invalid configuration")
    createValid perform type factory effective

end SessionPipeline.Effect
