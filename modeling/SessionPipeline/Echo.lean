import SessionPipeline.Execution

/-!
A demonstration: a session over a loopback whose handler writes back every payload that it receives.
Two frames arrive in three uneven reads, the reader falls idle and the session is closed.
-/
namespace SessionPipeline.Echo

abbrev Program := Script Unit

def defaultConfig : SessionConfig :=
  { filters := [
      { name := "codec", type := "size_prefixed_codec", config := .obj [("max_frame_length", .int 4096)] },
      { name := "log", type := "logging", config := .obj [("level", .str "info")] }] }

def say (line : Bytes) (next : Program) : Program := .call (.print false line) fun _ => next

def sayText (line : String) (next : Program) : Program := say (Bytes.ofString line) next

def handler : Invocation → Program
  | .handle .sessionOpened ref => .look fun s =>
    sayText ("session " ++ toString (s.session ref).id ++ " opened") (.done .unit)
  | .handle (.messageReceived (.bytes content)) ref =>
    say (Bytes.ofString "received: " ++ content) (.invoke (.write ref (.text content)))
  | .handle (.messageSent request) _ => .look fun s =>
    match (s.request request).message with
    | .text content => say (Bytes.ofString "echoed: " ++ content) (.done .unit)
    | _ => .done .unit
  | .handle (.exceptionCaught (some failure)) ref =>
    if failure.standard then .look fun s =>
      .call (.print true (Bytes.ofString
          ("session " ++ toString (s.session ref).id ++ " error: " ++ failure.message)))
        fun _ => .invoke (.close ref)
    else .fail failure
  | .handle .sessionClosed ref => .look fun s =>
    let session := s.session ref
    sayText ("session " ++ toString session.id ++ " closed after " ++ toString session.readMessages
      ++ " reads and " ++ toString session.writtenMessages ++ " writes") (.done .unit)
  | _ => .done .unit

def wire : Bytes := ["hello", "filter chain"].flatMap fun s => Frame.encodeBytes (Bytes.ofString s)

def reads : List Bytes :=
  [wire.take 3, (wire.take (wire.length - 4)).drop 3, wire.drop (wire.length - 4)]

def events : List Event :=
  [.sessionCreated, .sessionOpened] ++ reads.map (fun b => .messageReceived (.bytes b))
    ++ [.sessionIdle .reader]

def converse (chain : Template) (processor : ProcessorId) (ref : SessionRef) : Program :=
  (Script.all ([Call.addAll ref chain.entries] ++ events.map (Call.fire ref) ++ [Call.close ref]
    |>.map Script.invoke)).andThen <| .look fun s =>
      let flushed := match s.processor processor with
        | .loopback flushed => flushed
        | .custom _ => 0
      sayText ("processor flushed " ++ toString flushed ++ " requests") (.done .unit)

def converseOver (config : SessionConfig) (chain : Template) : Program :=
  .look fun s =>
    .call (.log Logging.Registry.defaultName .info ("chain template: " ++ chain.toString s.label)) fun _ =>
      .define handler fun code => .numbered (.newHandler (.custom code)) fun h =>
        .numbered (.newProcessor (.loopback 0)) fun p =>
          .numbered (.newSession (some h) (some p) config.writeQueueCapacity .unlimited) fun ref =>
            converse chain p ref

/-- A configuration file by its path and content, or none for the default configuration. -/
abbrev Source := Option (String × Option String)

def program (source : Source) : Program :=
  let serve (config : SessionConfig) : Program :=
    .call (.setGlobalLevel config.level) fun _ => .call (.configure config) fun
      | .template chain => converseOver config chain
      | _ => .done .unit
  match source with
  | none => serve defaultConfig
  | some (path, content) => .call (.loadConfig path content) fun
    | .config config => serve config
    | _ => .done .unit

def depth : Nat := 1000000

def start : World Unit :=
  { own := (), store := { logging := Logging.Registry.initial.setSink (some (.observer "log")) } }

def run (source : Source) : Nat × List Observation :=
  let (ending, world) := (program source).execute depth start
  let seen := world.store.journal.reverse
  match ending with
  | .failed failure => (1, seen ++ [.printed true (Bytes.ofString ("loopback_session: " ++ failure.message))])
  | _ => (0, seen)

/-- The line that an observation puts on standard error or on standard output; log records go to
standard error and bear the moment `now`. -/
def lineOf? (now : Int) : Observation → Option (Bool × Bytes)
  | .printed stderr line => some (stderr, line)
  | .emitted (.observed _ record) =>
    some (true, Logging.Layout.plain.format { record with timestamp := now })
  | _ => none

def output (seen : List Observation) : Bytes :=
  (seen.filterMap (lineOf? 0)).flatMap fun (stderr, line) =>
    if stderr then [] else line ++ Bytes.ofString "\n"

end SessionPipeline.Echo
