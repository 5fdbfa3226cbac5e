import SessionPipeline.Config.Template
import SessionPipeline.Filter.Delivery

/-!
Running scripts and tasks. `interpret` runs a script in terms of what its calls do, and `performWith`
performs a task with a bounded depth of tasks within tasks, so a run that needs more ends as out of
fuel and not as a failure.
-/
namespace SessionPipeline
namespace Effect

variable {σ : Type}

def ofCall (perform : Perform σ) : Call → Effect σ Reply
  | .note note => do
    observe (.noted note)
    return .unit
  | .print stderr line => do
    observe (.printed stderr line)
    return .unit
  | .newFilter filter => return .number (← makeFilter filter)
  | .newHandler handler => do
    let id := (← store).handlers.size
    modifyStore fun s => { s with handlers := s.handlers.push handler }
    return .number id
  | .newProcessor processor => do
    let id := (← store).processors.size
    modifyStore fun s => { s with processors := s.processors.push processor }
    return .number id
  | .newSession handler processor capacity allocation =>
    return .number (← newSession handler processor capacity allocation)
  | .add ref position name filter => do
    add perform ref position name filter
    return .unit
  | .remove ref name => return .filter (← remove perform ref name)
  | .removeFilter ref filter => return .text (← removeFilter perform ref filter)
  | .replace ref name filter => return .filter (← replace perform ref name filter)
  | .clear ref => do
    clear perform ref
    return .unit
  | .addAll ref entries => do
    addAll perform ref entries
    return .unit
  | .fire ref event => do
    fire perform ref event
    return .unit
  | .forward handle ref event => do
    forward perform handle ref event
    return .unit
  | .write ref message => return .number (← write perform ref message)
  | .close ref => do
    close perform ref
    return .unit
  | .setAttribute ref key value => do
    modifySession ref fun s => s.setAttribute key value
    return .unit
  | .removeAttribute ref key => do
    let present := ((← session ref).attribute? key).isSome
    modifySession ref fun s => s.removeAttribute key
    return .flag present
  | .pollQueue ref => return .request (← handOver ref)
  | .flush processor ref => do
    flush perform processor ref
    return .unit
  | .removeSession processor ref => do
    removeSession perform processor ref
    return .unit
  | .newFuture => return .number (← newFuture)
  | .complete future outcome => return .flag (← complete perform future outcome)
  | .listen future listener => do
    listen perform future listener
    return .unit
  | .newRequest message future => return .number (← newRequest { message := message, future := future })
  | .wrapRequest inner message => return .number (← wrapRequest inner message)
  | .setLevel filter event level => do
    modifyFilter filter (Filter.mapSettings (·.setLevel event level))
    return .unit
  | .setAllLevels filter level => do
    modifyFilter filter (Filter.mapSettings (·.setAllLevels level))
    return .unit
  | .setGlobalLevel level => do
    setGlobalLevel level
    return .unit
  | .log logger level text => do
    log logger level text
    return .unit
  | .openFactories => do
    openFactories
    return .unit
  | .registerBuiltIn => do
    openFactories
    registerBuiltIn
    return .unit
  | .register name factory => do
    openFactories
    return .flag (← register name factory)
  | .unregister name => do
    openFactories
    return .flag (← unregister name)
  | .createFilter type config => do
    openFactories
    return .filter (some (← createFilter perform type config))
  | .validateWith factory config => return .flag (← validateWith perform factory config)
  | .createWith factory config => return .filter (← createWith perform factory config)
  | .configure config => return .template (← configure perform config)
  | .loadConfig path content => return .config (← loadConfig path content)

/-- Code can only name sessions that there are. -/
def needSessions (refs : List SessionRef) : Effect σ Unit := do
  if !refs.all (· < (← store).sessions.size) then fail (.invalidArgument "no such session")

def answer (perform : Perform σ) (c : Call) : Effect σ Reply := do
  needSessions c.sessions
  ofCall perform c

/-- What a script does, `respond` telling what each of its calls does. -/
def interpret (respond : Call → Effect σ Reply) : Script σ → Effect σ Reply
  | .done reply => pure reply
  | .fail failure => fail failure
  | .look next => do interpret respond (next (← store))
  | .get next => do interpret respond (next (← MonadState.get).own)
  | .set own next => do
    modify fun w => { w with own := own }
    interpret respond next
  | .define code next => do
    let id := (← MonadState.get).code.size
    modify fun w => { w with code := w.code.push code }
    interpret respond (next id)
  | .call c next => do interpret respond (next (← respond c))
  | .attempt body next => do interpret respond (next (← attempt (interpret respond body)))

def ofScript (perform : Perform σ) (script : Script σ) : Effect σ Reply :=
  interpret (answer perform) script

def ofTask (perform : Perform σ) : Task → Effect σ Reply
  | .run code how => do
    match (← MonadState.get).code[code]? with
    | some body => ofScript perform (body how)
    | none => return .unit
  | .deliver filter handle ref event => do
    deliver perform filter handle ref event
    return .unit
  | .fire ref event => do
    fire perform ref event
    return .unit
  | .drain processor ref => do
    drain perform processor ref
    return .unit
  | .clear ref => do
    clear perform ref
    return .unit
  | .failPending ref dropped => return .number (← failPending perform ref dropped)

/-- Performs a task whose tasks within tasks are nested less deep than `fuel`. -/
def performWith : Nat → Perform σ
  | 0, _ => throw .outOfFuel
  | fuel + 1, task => ofTask (performWith fuel) task

end Effect

inductive Ending
  | replied (reply : Reply)
  | failed (failure : Failure)
  | outOfFuel

instance (ending : Ending) : Decidable (ending = .outOfFuel) :=
  match ending with
  | .replied _ => .isFalse nofun
  | .failed _ => .isFalse nofun
  | .outOfFuel => .isTrue rfl

def Script.execute {σ : Type} (fuel : Nat) (script : Script σ) (world : World σ) : Ending × World σ :=
  match Effect.ofScript (Effect.performWith fuel) script world with
  | .ok reply world => (.replied reply, world)
  | .error (.failed failure) world => (.failed failure, world)
  | .error .outOfFuel world => (.outOfFuel, world)

end SessionPipeline
