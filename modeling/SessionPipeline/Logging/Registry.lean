import SessionPipeline.Logging.Glob
import SessionPipeline.Logging.Sink

/-!
Named loggers and the rules that give each its level: the latest pattern that admits the name, else
the level of the component before the name's first dot, else the global level. Every change of a rule
sets every logger's level anew.
-/
namespace SessionPipeline.Logging

structure Logger where
  name : Bytes
  level : Level := .info
  sink : Option Sink := none
  deriving DecidableEq, Repr

namespace Logger

def shouldLog (l : Logger) (level : Level) : Bool := level.passes l.level

/-- Hands a record over under this logger's name, whatever its level. -/
def hand (l : Logger) (r : Record) : List Emission :=
  match l.sink with
  | some sink => sink.write { r with logger := l.name }
  | none => []

def log (l : Logger) (level : Level) (text : Bytes) (context : Context := {}) : List Emission :=
  if l.shouldLog level then l.hand { level := level, message := text, context := context } else []

def flush (l : Logger) : List Emission :=
  match l.sink with
  | some sink => sink.flush
  | none => []

end Logger

structure Rule where
  glob : Glob
  level : Level
  deriving DecidableEq, Repr

structure Registry where
  loggers : List Logger
  componentLevels : List (Component × Level) := []
  /-- Latest first. -/
  rules : List Rule := []
  globalLevel : Level := .info
  sink : Option Sink
  deriving DecidableEq, Repr

namespace Registry

def defaultName : String := "default"

def initial : Registry :=
  let sink := some (.stdio true .plain)
  { loggers := [⟨Bytes.ofString defaultName, .info, sink⟩], sink := sink }

instance : Inhabited Registry := ⟨initial⟩

def logger? (r : Registry) (name : Bytes) : Option Logger :=
  r.loggers.find? (·.name == name)

/-- The known component that a name belongs to. -/
def componentOf? (name : Bytes) : Option Component :=
  if name.contains (Pattern.ascii '.') then
    Component.known.find? fun c => Bytes.ofString c.name == name.takeWhile (· != Pattern.ascii '.')
  else none

def effectiveLevel (r : Registry) (name : Bytes) : Level :=
  match r.rules.find? (·.glob.admits name) with
  | some rule => rule.level
  | none =>
    ((componentOf? name).bind fun c => r.componentLevels.lookup c).getD r.globalLevel

def obtain (r : Registry) (name : Bytes) : Logger × Registry :=
  match r.logger? name with
  | some logger => (logger, r)
  | none =>
    let logger : Logger := ⟨name, r.effectiveLevel name, r.sink⟩
    (logger, { r with loggers := r.loggers ++ [logger] })

def refresh (r : Registry) : Registry :=
  { r with loggers := r.loggers.map fun l => { l with level := r.effectiveLevel l.name } }

def setGlobalLevel (r : Registry) (level : Level) : Registry :=
  refresh { r with globalLevel := level }

def setComponentLevel (r : Registry) (component : Component) (level : Level) : Registry :=
  refresh { r with
    componentLevels := (component, level) :: r.componentLevels.filter (·.1 != component) }

def setPattern (r : Registry) (glob : Bytes) (level : Level) : Except Failure Registry := do
  return refresh { r with rules := ⟨← Glob.read glob, level⟩ :: r.rules }

def resetLevels (r : Registry) : Registry :=
  refresh { r with rules := [], componentLevels := [], globalLevel := .info }

def setSink (r : Registry) (sink : Option Sink) : Registry :=
  { r with sink := sink, loggers := r.loggers.map fun l => { l with sink := sink } }

def shouldLog (r : Registry) (name : Bytes) (level : Level) : Bool :=
  match r.logger? name with
  | some logger => logger.shouldLog level
  | none => level.passes (r.effectiveLevel name)

def names (r : Registry) : List Bytes := r.loggers.map (·.name)

def update (r : Registry) (name : Bytes) (change : Logger → Logger) : Registry :=
  { r with loggers := r.loggers.map fun l => if l.name == name then change l else l }

def log (r : Registry) (name : Bytes) (level : Level) (text : Bytes) (context : Context := {}) :
    List Emission × Registry :=
  let (logger, r) := r.obtain name
  (logger.log level text context, r)

/-- Logs on behalf of a component, which the record carries whatever its context says. -/
def logComponent (r : Registry) (component : Component) (name : Bytes) (level : Level)
    (text : Bytes) (context : Context := {}) : List Emission × Registry :=
  r.log (component.path name) level text { context with component := component }

end Registry
end SessionPipeline.Logging
