import SessionPipeline.Filter.Basic
import SessionPipeline.Json.Basic

/-!
Factories make filters from a configuration. Each names itself, has a default configuration, checks
one and turns one into a filter; three kinds are built in, others are an application's own code.
-/
namespace SessionPipeline

structure Metadata where
  name : String
  version : String
  description : String
  deriving DecidableEq, Repr, Inhabited

inductive Factory
  | noop
  | logging
  | codec
  | custom (metadata : Metadata) (defaults : Json) (code : CodeId)
  deriving Inhabited

namespace Factory

/-- The factories every registry starts with, in the order they are registered. -/
def builtIn : List (String × Factory) :=
  [("noop", noop), ("logging", logging), ("size_prefixed_codec", codec)]

def metadata : Factory → Metadata
  | noop => ⟨"noop", "1.0.0", "Forwards every event unchanged"⟩
  | logging => ⟨"logging", "1.0.0", "Logs every event at a per-event level"⟩
  | codec => ⟨"size_prefixed_codec", "1.0.0", "VarInt length-prefixed framing"⟩
  | custom metadata _ _ => metadata

def defaults : Factory → Json
  | noop => .obj []
  | logging => .obj [("logger", .str LogSettings.defaultLogger)]
  | codec => .obj [("max_frame_length", .int Frame.defaultMaximum.toNat)]
  | custom _ defaults _ => defaults

/-- The defaults with an object merged in; without a configuration the defaults alone, and anything
else in their place. -/
def effective (defaults config : Json) : Json :=
  match config with
  | .null => defaults
  | .obj _ => defaults.mergePatch config
  | config => config

def isLevel (value : Json) : Bool :=
  match value with
  | .str text => (Logging.Level.parse? text).isSome
  | _ => false

/-- A field satisfies `test` if it is there at all. -/
def holdsIfPresent (config : Json) (key : String) (test : Json → Bool) : Bool :=
  match config.field? key with
  | some value => test value
  | none => true

def validLevels : Json → Bool
  | .obj levels => levels.all fun (name, level) => (EventKind.ofName? name).isSome && isLevel level
  | _ => false

def validLogging (config : Json) : Bool :=
  config.isObject && holdsIfPresent config "logger" (fun v => v.asString?.isSome)
    && holdsIfPresent config "level" isLevel && holdsIfPresent config "levels" validLevels

def validCodec (config : Json) : Bool :=
  match config.field? "max_frame_length" with
  | some value =>
    match value.asInt64? with
    | some n => n > 0
    | none => false
  | none => false

def readText (value : Json) : Except Failure String :=
  match value.asString? with
  | some text => .ok text
  | none => .error .wrongType

def loggerName (config : Json) : Except Failure String :=
  if config.isObject then
    match config.field? "logger" with
    | some value => readText value
    | none => .ok LogSettings.defaultLogger
  else .error .wrongType

def withLevels (settings : LogSettings) : List (String × Json) → Except Failure LogSettings
  | [] => .ok settings
  | (name, level) :: rest =>
    match EventKind.ofName? name with
    | none => .error (.invalidArgument ("unknown event '" ++ name ++ "'"))
    | some event => do
      let text ← readText level
      withLevels (settings.setLevel event (Logging.Level.parse text)) rest

/-- The settings a configuration describes: one level for all events first, then single ones. -/
def logSettings (config : Json) (logger : String) : Except Failure LogSettings := do
  let initial := LogSettings.initial logger
  let settings ← match config.field? "level" with
    | some level => (readText level).map fun text => initial.setAllLevels (Logging.Level.parse text)
    | none => .ok initial
  match config.field? "levels" with
  | some levels => withLevels settings levels.members
  | none => .ok settings

def codecMaximum (config : Json) : Except Failure UInt64 :=
  match (config.field? "max_frame_length").bind Json.asSize? with
  | some maximum => .ok maximum
  | none => .error .wrongType

end Factory

abbrev FactoryTable := List (String × Factory)

end SessionPipeline
