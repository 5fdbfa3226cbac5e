import SessionPipeline.Effect

/-!
What a filter does when it joins or leaves a chain. A codec allows no second one beside it and takes
its unfinished input with it; a logging filter keeps the name of its entry on the session.
-/
namespace SessionPipeline.Effect

variable {σ : Type}

def discardPending (codec : FilterId) (session : SessionRef) : Effect σ Unit :=
  modifySession session fun s => s.removeAttribute (.pending codec)

def codecsOf (session : SessionRef) : Effect σ (List (String × FilterId)) := do
  let s ← store
  return ((s.chain session).getAll session).filterMap fun e =>
    e.filter.bind fun id => if (s.filter id).isCodec then some (e.name, id) else none

def admitCodec (self : FilterId) (name : String) (session : SessionRef) :
    List (String × FilterId) → Effect σ Unit
  | [] => pure ()
  | (other, codec) :: rest => do
    if other != name then
      fail (.logic ("chain already holds a ProtocolCodecFilter, cannot add " ++ name))
    if codec != self then discardPending codec session
    admitCodec self name session rest

def runHook (perform : Perform σ) (id : FilterId) (hook : Hook) (name : String) (handle : Handle) :
    Effect σ Unit := do
  observe (.hooked id hook name handle)
  match ← filter id, hook with
  | .custom _ code, hook => runCode perform code (.hook hook name handle)
  | .codec .., .preAdd => do admitCodec id name handle.owner (← codecsOf handle.owner)
  | .codec .., .postRemove => discardPending id handle.owner
  | .logging _, .postAdd =>
    modifySession handle.owner fun s => s.setAttribute (.entryName id) (.ofString name)
  | .logging _, .postRemove =>
    modifySession handle.owner fun s => s.removeAttribute (.entryName id)
  | _, _ => pure ()

end SessionPipeline.Effect
