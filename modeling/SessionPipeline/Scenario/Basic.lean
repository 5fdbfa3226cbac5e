import SessionPipeline.Execution

/-!
Scenarios: applications put together while they run. A scenario names the filters, handlers,
processors, requests and places in a chain that its actions speak of and numbers the futures of its
writes; an action is a script whose own state that is, and it gives a JSON value or null.
-/
namespace SessionPipeline

structure Scenario where
  filters : List (String × FilterId) := []
  handlers : List (String × HandlerId) := []
  processors : List (String × ProcessorId) := []
  current : Option SessionRef := none
  sessions : Nat := 0
  futures : Array FutureId := #[]
  requests : List (String × RequestId) := []
  saved : List (String × Handle) := []
  /-- How often each limited place has been reached, as far as its limit lets it count. -/
  counters : List (String × Nat) := []
  template : Template := {}
  deriving Inhabited

namespace Scenario

abbrev Action := Script Scenario

structure Scope where
  speaker : String := ""
  session : Option SessionRef := none
  handle : Option Handle := none
  event : Option Event := none

def put {α : Type} (key : String) (value : α) (entries : List (String × α)) : List (String × α) :=
  (key, value) :: entries.filter (·.1 != key)

def give (j : Json) : Action := .done (.json j)

def nothing : Action := give .null

def refuse (text : String) : Action := .fail (.application text)

def noAction : Action := refuse "no session or bad action"

def changeThen (f : Scenario → Scenario) (next : Action) : Action := .get fun app => .set (f app) next

def change (f : Scenario → Scenario) : Action := changeThen f nothing

def act (c : Call) : Action := .call c fun _ => nothing

def valueOf : Reply → Json
  | .json j => j
  | .flag b => .bool b
  | .number n => .ofNat n
  | .text s => .str s
  | _ => .null

def ask (c : Call) : Action := .call c fun reply => give (valueOf reply)

def tell (k : Scenario → Store → Json) : Action := .get fun app => .look fun s => give (k app s)

def orRefuse {α : Type} (found : Option α) (text : String) (k : α → Action) : Action :=
  match found with
  | some a => k a
  | none => refuse text

def sessionIn (scope : Scope) (app : Scenario) : Option SessionRef := scope.session.or app.current

def withSession (scope : Scope) (k : SessionRef → Action) : Action := .get fun app =>
  match sessionIn scope app with
  | some s => k s
  | none => noAction

def withFuture (n : Nat) (k : FutureId → Action) : Action := .get fun app =>
  orRefuse app.futures[n]? "no such future" k

def withRequest (key : String) (k : RequestId → Action) : Action := .get fun app =>
  orRefuse (app.requests.lookup key) "no such request" k

def withSaved (key : String) (k : Handle → Action) : Action := .get fun app =>
  orRefuse (app.saved.lookup key) "nothing saved" k

def withNumbered (n : Nat) (k : SessionRef → Action) : Action := .get fun app =>
  if n < app.sessions then k n else refuse "no such session"

def withFilter (name : Option String) (k : Option FilterId → Action) : Action :=
  match name with
  | none => k none
  | some name => .get fun app => orRefuse (app.filters.lookup name) "no such filter" fun f => k (some f)

def withSomeFilter (name : Option String) (k : FilterId → Action) : Action :=
  withFilter name fun f => orRefuse f "no such filter" k

def nameFilter (name : String) (f : Filter) : Action :=
  .numbered (.newFilter f) fun n => change fun app => { app with filters := put name n app.filters }

def nameHandler (name : String) (h : Handler) : Action :=
  .numbered (.newHandler h) fun n => change fun app => { app with handlers := put name n app.handlers }

def nameProcessor (name : String) (p : Processor) : Action :=
  .numbered (.newProcessor p) fun n =>
    change fun app => { app with processors := put name n app.processors }

def nameRequest (name : String) (c : Call) : Action :=
  .numbered c fun n => change fun app => { app with requests := put name n app.requests }

def saveHandle (name : String) (h : Handle) : Action :=
  change fun app => { app with saved := put name h app.saved }

/-- Makes a call for a future and gives the future's number in the scenario. -/
def numberFuture (c : Call) : Action := .numbered c fun f => .get fun app =>
  .set { app with futures := app.futures.push f } (give (.ofNat app.futures.size))

def setTemplate (t : Template) (next : Action) : Action :=
  changeThen (fun app => { app with template := t }) next

def begin (handler : Option HandlerId) (processor : Option ProcessorId) (capacity : UInt64)
    (allocation : Allocation) : Action :=
  .numbered (.newSession handler processor capacity allocation) fun ref =>
    changeThen (fun app => { app with current := some ref, sessions := app.sessions + 1 }) <|
      tell fun _ s => .ofNat (s.session ref).id

/-- Runs an action the first `n` times that its place is reached, counting before it runs. -/
def limited (place : String) (n : Nat) (body : Action) : Action := .get fun app =>
  let count := (app.counters.lookup place).getD 0
  if count < n then .set { app with counters := put place (count + 1) app.counters } body
  else nothing

def drain (ref : SessionRef) : Nat → Action
  | 0 => nothing
  | n + 1 => .call (.pollQueue ref) fun
    | .request (some r) => .look fun s =>
      let announce : Action := .call (.fire ref (.messageSent r)) fun _ => drain ref n
      match (s.request r).future with
      | some f => .call (.complete f .written) fun _ => announce
      | none => announce
    | _ => nothing

def withFactory (name : String) (k : Factory → Action) : Action :=
  .call .openFactories fun _ => .look fun s => match s.factory? name with
    | some f => k f
    | none => nothing

def forward (scope : Scope) (ref : SessionRef) (e : Event) : Action :=
  match scope.handle with
  | some h => act (.forward h ref e)
  | none => noAction

/-- Passes the scope's own event on, changed by `k`. -/
def forwarding (scope : Scope) (ref : SessionRef) (k : Event → (Event → Action) → Action) : Action :=
  match scope.event with
  | some e => k e (forward scope ref)
  | none => noAction

/-- Passes an event on and reports a failure of that down the same chain. -/
def redirect (e : Event) (forward : Event → Action) : Action :=
  .attempt (forward e) fun
    | .ok _ => nothing
    | .error failure => forward (.exceptionCaught (some failure))

def nameOf? (app : Scenario) (f : FilterId) : Option String :=
  (((app.filters.filter fun (_, g) => g == f).map (·.1)).mergeSort (· ≤ ·)).head?

end Scenario
end SessionPipeline
