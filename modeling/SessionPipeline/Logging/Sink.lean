import SessionPipeline.Logging.Layout

/-!
Where records go. A sink turns a record into what the outside world sees of it; an observer is a
sink of the application's own, known by its name, that is handed the records themselves.
-/
namespace SessionPipeline.Logging

inductive Sink
  | stdio (stderr : Bool) (layout : Layout)
  | null
  | external (attached : Bool) (layout : Layout)
  | observer (name : String)
  deriving DecidableEq, Repr, Inhabited

inductive Emission
  | line (stderr : Bool) (text : Bytes)
  | callback (level : Level) (logger text : Bytes)
  | observed (sink : String) (record : Record)
  | flushed (sink : String)
  deriving DecidableEq, Repr

def Emission.written (stderr : Bool) (emissions : List Emission) : Bytes :=
  emissions.flatMap fun
    | line toStderr text => if toStderr == stderr then text ++ Bytes.ofString "\n" else []
    | _ => []

namespace Sink

/-- The number of a sink's kind; an application's own sinks count as external. -/
def kind : Sink → Nat
  | stdio .. => 0
  | null => 1
  | external .. => 2
  | observer _ => 2

def write : Sink → Record → List Emission
  | stdio stderr layout, r => [.line stderr (layout.format r)]
  | null, _ => []
  | external attached layout, r =>
    if attached then [.callback r.level r.logger (layout.format r)] else []
  | observer name, r => [.observed name r]

def flush : Sink → List Emission
  | observer name => [.flushed name]
  | _ => []

end Sink
end SessionPipeline.Logging
