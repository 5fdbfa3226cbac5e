import SessionPipeline.Scenario.Basic

/-!
Actors: filters, handlers, processors and listeners whose behaviour is a part of a scenario. An actor
notes how it is entered and then plays its part for that, if it has one; a filter without a part for
an event passes the event on.
-/
namespace SessionPipeline.Scenario

structure Actor where
  name : String
  quiet : Bool := false
  /-- The actions of each part, by the name of what the part is played for. -/
  part : String → Option (List (Scope → Action))
  deriving Inhabited

def play (scope : Scope) (actions : List (Scope → Action)) : Action :=
  Script.all (actions.map fun action => (action scope).bind fun reply =>
    match valueOf reply with
    | .null => .done .unit
    | j => .call (.note (.arr [.str scope.speaker, j])) fun _ => .done .unit)

namespace Actor

def enter (a : Actor) (what : String) (session : SessionRef) (argument : Store → String)
    (scope : Scope) (otherwise : Action) : Action :=
  let playing := match a.part what with
    | some actions => play { scope with speaker := a.name, session := some session } actions
    | none => otherwise
  if a.quiet then playing
  else .look fun s =>
    .call (.note (.str (a.name ++ "." ++ what ++ "@" ++ toString (s.session session).id ++ argument s)))
      fun _ => playing

def filter (a : Actor) (argument : Store → Event → String) : Invocation → Action
  | .hook hook name handle =>
    a.enter hook.name handle.owner (fun _ => " " ++ name) { handle := some handle } (.done .unit)
  | .event event session handle =>
    a.enter event.kind.name session (argument · event) { handle := some handle, event := some event }
      (.invoke (.forward handle session event))
  | _ => .done .unit

def endpoint (a : Actor) (argument : Store → Event → String) : Invocation → Action
  | .handle event session =>
    a.enter event.kind.name session (argument · event) { event := some event } (.done .unit)
  | .flush session => a.enter "flush" session (fun _ => "") {} (.done .unit)
  | .remove session => a.enter "remove" session (fun _ => "") {} (.done .unit)
  | _ => .done .unit

end Actor

def listener (name : String) (session : Option SessionRef) (outcome : WriteFuture → Json)
    (actions : List (Scope → Action)) : Invocation → Action
  | .completed future => .look fun s =>
    .call (.note (.str (name ++ " " ++ (outcome (s.future future)).render))) fun _ =>
      play { speaker := name, session := session } actions
  | _ => .done .unit

/-- A factory that notes what it is asked; `valid` decides every validation unless absent, and
`make` gives the filters. -/
def factory (valid : Option Bool) (make : Except Failure (Option Filter)) : Invocation → Action
  | .validate config => .call (.note (.str ("validate " ++ config.render))) fun _ =>
    .done (.flag (valid.getD config.isObject))
  | .create config => .call (.note (.str ("create " ++ config.render))) fun _ =>
    .ofExcept make fun
      | none => .done (.filter none)
      | some f => .call (.newFilter f) fun
        | .number id => .done (.filter (some id))
        | _ => .done (.filter none)
  | _ => .done .unit

end SessionPipeline.Scenario
