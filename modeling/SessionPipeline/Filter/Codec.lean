import SessionPipeline.Chain.Dispatch

/-!
The filter that frames bytes. Inbound bytes are gathered per session until frames are complete; a
malformed stream is dropped and reported behind the frames before it. Outbound payloads are encoded
into a wrapper of the request, and the wrapper comes back as the request it wraps.
-/
namespace SessionPipeline.Effect

variable {σ : Type}

def codecLogger : String := "Codec.protocol_codec_filter"

/-- Passes frames on one by one, `onward` being how events are passed on. -/
def forwardFrames (onward : Event → Effect σ Unit) : List Bytes → Effect σ Unit
  | [] => pure ()
  | frame :: rest => do
    onward (.messageReceived (.bytes frame))
    forwardFrames onward rest

def keepPending (self : FilterId) (ref : SessionRef) (rest : Bytes) : Effect σ Unit :=
  modifySession ref fun s => s.setAttribute (.pending self) (.bytes rest)

def receiveBytes (onward : Event → Effect σ Unit) (self : FilterId) (maximum : UInt64)
    (ref : SessionRef) (input : Bytes) : Effect σ Unit := do
  let s ← session ref
  let buffer := s.pendingOf self ++ input
  let decoded := Frame.decode maximum buffer
  match decoded.failure with
  | none => do
    keepPending self ref decoded.rest
    forwardFrames onward decoded.frames
  | some failure => do
    log codecLogger .warning ("session " ++ toString s.id ++ ": decoder failed, dropping "
      ++ toString buffer.length ++ " bytes: " ++ failure.message)
    keepPending self ref []
    forwardFrames onward decoded.frames
    onward (.exceptionCaught (some failure))

def encodeRequest (onward : Event → Effect σ Unit) (maximum : UInt64) (ref : SessionRef)
    (id : RequestId) : Effect σ Unit := do
  match (← request id).message with
  | .bytes _ => onward (.filterWrite id)
  | message => do
    let encoded ← ofExcept (Frame.encode maximum message)
    log codecLogger .debug ("session " ++ toString (← sessionId ref) ++ ": encoded "
      ++ toString encoded.length ++ " bytes")
    onward (.filterWrite (← wrapRequest id (.bytes encoded)))

def codecEvent (onward : Event → Effect σ Unit) (self : FilterId)
    (writeMaximum readMaximum : UInt64) (ref : SessionRef) (event : Event) : Effect σ Unit := do
  match event with
  | .sessionClosed => do
    discardPending self ref
    onward event
  | .messageReceived (.bytes input) => receiveBytes onward self readMaximum ref input
  | .messageSent id => do onward (.messageSent ((← request id).inner.getD id))
  | .filterWrite id => encodeRequest onward writeMaximum ref id
  | event => onward event

end SessionPipeline.Effect
