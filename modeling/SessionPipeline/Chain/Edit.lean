import SessionPipeline.Filter.Hooks

/-!
Adding, removing and replacing entries of a chain, with the hooks of the filters concerned. A hook may
itself edit the chain, so what was checked before it is checked again after it; an addition whose
hook fails is undone, and a removal whose first hook fails does not happen.
-/
namespace SessionPipeline.Effect

variable {σ : Type}

def chainLogger : String := "Chain.filter_chain"

def logChain (session : SessionRef) (level : Logging.Level) (text : String) : Effect σ Unit := do
  log chainLogger level ("session " ++ toString (← sessionId session) ++ ": " ++ text)

def needFilter (name : String) : Option FilterId → Effect σ FilterId
  | some id => pure id
  | none => fail (.invalidArgument ("filter must not be null: " ++ name))

/-- A failed hook's failure as its chain reports it: standard ones are quoted by `veto`. -/
def vetoed {α : Type} (veto : String → Failure) (failure : Failure) : Effect σ α :=
  fail (if failure.standard then veto failure.message else failure)

def linkEntry (session : SessionRef) (handle : Handle) (name : String) (position : Position) :
    Effect σ Unit := do
  modifyChain session fun c => c.insert handle.entry name position
  observe (.linked handle)

def discardEntry (session : SessionRef) (handle : Handle) : Effect σ Unit := do
  modifyChain session fun c => c.release handle.entry
  observe (.discarded handle)

def dropEntry (session : SessionRef) (handle : Handle) (name : String) : Effect σ Unit := do
  modifyChain session fun c => c.drop handle.entry name
  observe (.unlinked handle)

def allocateEntry (session : SessionRef) (name : String) (filter : FilterId) : Effect σ Handle := do
  let (id, allocated) := (← chain session).allocate name filter
  modifyChain session fun _ => allocated
  return allocated.handle session id

/-- Asks the filter of a new entry and links the entry; whatever fails, its slot is free again. -/
def admitEntry (perform : Perform σ) (session : SessionRef) (position : Position) (name : String)
    (filter : FilterId) : Effect σ Handle := do
  ofExcept ((← chain session).checkAddition name position)
  let handle ← allocateEntry session name filter
  match ← attempt (runHook perform filter .preAdd name handle) with
  | .error failure => do
    discardEntry session handle
    vetoed (.vetoedAddition name) failure
  | .ok () =>
    match (← chain session).checkAddition name position with
    | .error failure => do
      discardEntry session handle
      fail failure
    | .ok () => do
      linkEntry session handle name position
      return handle

/-- Tells the filter of a linked entry; if it fails, an entry that is still there leaves again. -/
def confirmEntry (perform : Perform σ) (session : SessionRef) (name : String) (filter : FilterId)
    (handle : Handle) : Effect σ Unit := do
  match ← attempt (runHook perform filter .postAdd name handle) with
  | .error failure => do
    if (← chain session).isCurrent handle then dropEntry session handle name
    logChain session .debug ("rolled back " ++ name ++ " after onPostAdd failed")
    fail failure
  | .ok () => pure ()

def add (perform : Perform σ) (session : SessionRef) (position : Position) (name : String)
    (filter? : Option FilterId) : Effect σ Unit := do
  let filter ← needFilter name filter?
  let handle ← admitEntry perform session position name filter
  logChain session .debug ("added " ++ name ++ " (" ++ (← store).label filter ++ ")")
  confirmEntry perform session name filter handle

def removeEntry (perform : Perform σ) (session : SessionRef) (id : EntryId) :
    Effect σ (Option FilterId) := do
  let entry := (← chain session).entry session id
  match entry.filter with
  | none => return none
  | some filter => do
    match ← attempt (runHook perform filter .preRemove entry.name entry.handle) with
    | .error failure => vetoed (.vetoedRemoval entry.name) failure
    | .ok () => pure ()
    if (← chain session).isCurrent entry.handle then
      dropEntry session entry.handle entry.name
      logChain session .debug ("removed " ++ entry.name)
      runHook perform filter .postRemove entry.name entry.handle
    return some filter

def remove (perform : Perform σ) (session : SessionRef) (name : String) :
    Effect σ (Option FilterId) := do
  match (← chain session).find? name with
  | some id => removeEntry perform session id
  | none => fail (.nameNotFound name)

def removeFilter (perform : Perform σ) (session : SessionRef) (filter : Option FilterId) :
    Effect σ String := do
  let c ← chain session
  match c.holder? filter with
  | some id => do
    let _ ← removeEntry perform session id
    return (c.slot id).name
  | none => fail (.nameNotFound ((filter.map (← store).label).getD "null"))

def putBack (session : SessionRef) (handle : Handle) (old : FilterId) (failure : Failure) :
    Effect σ (Option FilterId) := do
  if (← chain session).isCurrent handle then
    modifyChain session fun c => c.setFilter handle.entry old
  fail failure

/-- Puts another filter into the slot of an entry; the old one is put back if the new one objects. -/
def exchange (perform : Perform σ) (session : SessionRef) (name : String) (filter : FilterId)
    (handle : Handle) : Effect σ (Option FilterId) := do
  let c ← chain session
  if !c.isCurrent handle then fail (.nameNotFound name)
  match (c.slot handle.entry).filter with
  | none => return none
  | some old => do
    modifyChain session fun c => c.setFilter handle.entry filter
    let s ← store
    logChain session .debug
      ("replaced " ++ name ++ " (" ++ s.label old ++ " -> " ++ s.label filter ++ ")")
    match ← attempt (runHook perform filter .postAdd name handle) with
    | .error failure => putBack session handle old failure
    | .ok () => return some old

def replace (perform : Perform σ) (session : SessionRef) (name : String)
    (filter? : Option FilterId) : Effect σ (Option FilterId) := do
  let filter ← needFilter name filter?
  let handle ← ofExcept ((← chain session).getHandle session name)
  match ← attempt (runHook perform filter .preAdd name handle) with
  | .error failure => vetoed (.vetoedAddition name) failure
  | .ok () => pure ()
  exchange perform session name filter handle

/-- Removes the entry behind the head until there is none. -/
def clear (perform : Perform σ) (session : SessionRef) : Effect σ Unit := do
  let c ← chain session
  match (c.slot Chain.head).next with
  | some id =>
    if id == Chain.tail then pure ()
    else do
      let _ ← removeEntry perform session id
      let _ ← perform (.clear session)
  | none => pure ()

/-- Adds entries at the end, one after the other, stopping at the first that fails. -/
def addAll (perform : Perform σ) (session : SessionRef) : List (String × FilterId) → Effect σ Unit
  | [] => pure ()
  | (name, filter) :: rest => do
    add perform session .last name (some filter)
    addAll perform session rest

end SessionPipeline.Effect
