import SessionPipeline.Proofs.Filter.Leftover

/-! What a codec sends down for a request, and what it passes up when that comes back. Requests are
never changed, so it does not matter what happens in between. -/
namespace SessionPipeline

/-- What filters above a codec get back for a request that they have written. Bytes go down as they
are, and of bytes that wrap another request the codec cannot tell that it has not wrapped them. -/
def WriteRequest.returned (r : WriteRequest) (id : RequestId) : RequestId :=
  match r.message with
  | .bytes _ => r.inner.getD id
  | _ => id

/-- Whatever is no wrapper around bytes comes back as it is. -/
theorem WriteRequest.returned_self {r : WriteRequest}
    (plain : r.inner = none ∨ ∀ content, r.message ≠ .bytes content) (id : RequestId) :
    r.returned id = id := by
  unfold returned
  cases message : r.message with
  | bytes content =>
    rcases plain with unwrapped | other
    · rw [unwrapped]
      rfl
    · exact absurd message (other content)
  | _ => rfl

namespace World

variable {σ : Type} {w w' : World σ} {terms : Terms}

theorem Quiet.requested (quiet : Quiet terms w w') {id : RequestId} {r : WriteRequest}
    (made : w.store.requests[id]? = some r) : w'.store.requests[id]? = some r := by
  cases quiet with
  | request => exact getElem?_push_of_some made _
  | took ref found outcome =>
    obtain ⟨futures,settled⟩ := settle_eq (w.dequeue ref _ _) _ outcome
    rw [settled]
    exact made
  | _ => exact made

/-- A request that is once made stays as it is, wherever a run goes on to. -/
theorem Midway.requested (midway : w.Midway terms w') {id : RequestId} {r : WriteRequest}
    (made : w.store.requests[id]? = some r) : w'.store.requests[id]? = some r := by
  refine midway.carries (P := fun w w' => w.store.requests[id]? = some r →
    w'.store.requests[id]? = some r) (fun _ there => there) (fun before after there =>
      after (before there)) (fun step there => ?_) (fun _ _ _ there => there)
    (fun _ _ _ there => there) made
  cases step with
  | quiet quiet => exact quiet.requested there
  | awaited => exact there
  | replaced => exact there

/-- A codec stays one. -/
theorem Midway.decodes (midway : w.Midway terms w') {codec : FilterId}
    (decodes : (w.store.filter codec).isCodec = true) : (w'.store.filter codec).isCodec = true :=
  (midway.filter (filter_known decodes)).2.trans decodes

end World

namespace Effect

open World

variable {σ : Type} {w : World σ} {codec : FilterId} {ref : SessionRef} {id : RequestId}
  {request : WriteRequest} {writeMaximum readMaximum : UInt64}

theorem request_made (made : w.store.requests[id]? = some request) : w.store.request id = request := by
  rw [Store.request,Array.getD_eq_getD_getElem?,made,Option.getD_some]

theorem deliver_codec_eq (decodes : w.store.filter codec = .codec writeMaximum readMaximum)
    (perform : Perform σ) (handle : Handle) (ref : SessionRef) (event : Event) :
    deliver perform codec handle ref event w =
      codecEvent (forward perform handle ref) codec writeMaximum readMaximum ref event w := by
  rw [deliver,react,bind_of_ok (filter_apply codec w),decodes]

/-- The world in which a payload has been encoded and wrapped. -/
def wrapped (w : World σ) (ref : SessionRef) (inner : RequestId) (encoded : Bytes) : World σ :=
  (w.logged codecLogger .debug (Bytes.ofString ("session " ++ toString (w.store.session ref).id ++
    ": encoded " ++ toString encoded.length ++ " bytes"))).mapStore fun s => { s with
      requests := s.requests.push
        { message := .bytes encoded, future := (w.store.request inner).future, inner := some inner } }

theorem wrapped_evolves (w : World σ) (ref : SessionRef) (inner : RequestId) (encoded : Bytes) :
    w.Evolves .free (wrapped w ref inner encoded) :=
  .trans (.step (.quiet (.logged w _ _ _ _))) (.step (.quiet (.request _ _ fun _ => False.elim)))

theorem wrapped_made (w : World σ) (ref : SessionRef) (inner : RequestId) (encoded : Bytes) :
    (wrapped w ref inner encoded).store.requests[w.store.requests.size]? = some
      { message := .bytes encoded, future := (w.store.request inner).future, inner := some inner } :=
  Array.getElem?_push_size

section Encode

variable {onward : Event → Effect σ Unit} (made : w.store.requests[id]? = some request)
include made

theorem encodeRequest_bytes {content : Bytes} (payload : request.message = .bytes content) :
    encodeRequest onward writeMaximum ref id w = onward (.filterWrite id) w := by
  rw [encodeRequest,bind_of_ok (request_apply id w),request_made made,payload]

variable (other : ∀ content, request.message ≠ .bytes content)
include other

theorem encodeRequest_refused {failure : Failure}
    (refused : Frame.encode writeMaximum request.message = .error failure) :
    encodeRequest onward writeMaximum ref id w = .error (.failed failure) w := by
  rw [encodeRequest,bind_of_ok (request_apply id w),request_made made]
  cases message : request.message with
  | bytes content => exact absurd message (other content)
  | _ =>
    rw [message] at refused
    simp only [refused]
    rfl

theorem encodeRequest_wraps {encoded : Bytes}
    (encodes : Frame.encode writeMaximum request.message = .ok encoded) :
    encodeRequest onward writeMaximum ref id w =
      onward (.filterWrite w.store.requests.size) (wrapped w ref id encoded) := by
  rw [encodeRequest,bind_of_ok (request_apply id w),request_made made]
  cases message : request.message with
  | bytes content => exact absurd message (other content)
  | _ =>
    rw [message] at encodes
    simp only [encodes]
    rfl

end Encode

/-- What a request that comes back to a codec is passed on as. -/
theorem deliver_sent {perform : Perform σ} (decodes : (w.store.filter codec).isCodec = true)
    (made : w.store.requests[id]? = some request) (handle : Handle) (ref : SessionRef) :
    deliver perform codec handle ref (.messageSent id) w =
      forward perform handle ref (.messageSent (request.inner.getD id)) w := by
  cases kind : w.store.filter codec with
  | codec writeMaximum readMaximum =>
    rw [deliver_codec_eq kind,codecEvent,bind_of_ok (request_apply id w),request_made made]
  | _ =>
    rw [kind] at decodes
    cases decodes

/-- Where a run is, or is stopped, that a codec has passed a request on to. -/
theorem forward_midway (stops : Watch σ) (fuel : Nat) (handle : Handle) (ref : SessionRef)
    (event : Event) (w : World σ) :
    w.Midway .free ((forward (performUntil stops fuel) handle ref event).leaves w) := by
  have performs := performUntil_keeps (R := evolution .free) stops.abides_free
    (fun _ => evolution_edits) fuel
  refine ends_leaves (P := fun w' => w.Midway .free w') ?_
  exact ends_mono (forward_keeps performs (fun _ _ => False.elim) False.elim)
    (fun _ _ => .ended) (fun _ _ => .ended) fun _ stopped => stopped

/-- A codec refuses to write what it cannot encode, or passes a request down for what it is given; and
when that comes back, however much later and in whatever chain, it passes up the very request that it
was given, unless that is bytes which wrap another request: of these it passes up the other one. -/
theorem deliver_returns {perform : Perform σ} {handle : Handle}
    (decodes : w.store.filter codec = .codec writeMaximum readMaximum)
    (made : w.store.requests[id]? = some request) :
    (∃ failure, Frame.encode writeMaximum request.message = .error failure ∧
      deliver perform codec handle ref (.filterWrite id) w = .error (.failed failure) w) ∨
    ∃ passed w', deliver perform codec handle ref (.filterWrite id) w =
        forward perform handle ref (.filterWrite passed) w' ∧
      (∀ stops fuel, w'.Midway .free
        ((forward (performUntil stops fuel) handle ref (.filterWrite passed)).leaves w')) ∧
      ∀ v, w'.Midway .free v → ∀ (perform' : Perform σ) (handle' : Handle) (ref' : SessionRef),
        deliver perform' codec handle' ref' (.messageSent passed) v =
          forward perform' handle' ref' (.messageSent (request.returned id)) v := by
  have codecs : (w.store.filter codec).isCodec = true := by rw [decodes]; rfl
  have writes : deliver perform codec handle ref (.filterWrite id) w =
      encodeRequest (forward perform handle ref) writeMaximum ref id w := deliver_codec_eq decodes ..
  rw [writes]
  by_cases bytes : ∃ content, request.message = .bytes content
  · obtain ⟨content,payload⟩ := bytes
    refine .inr ⟨id,w,encodeRequest_bytes made payload,fun stops fuel => forward_midway ..,?_⟩
    intro v later perform' handle' ref'
    rw [deliver_sent (later.decodes codecs) (later.requested made),WriteRequest.returned,payload]
  · rw [not_exists] at bytes
    cases encodes : Frame.encode writeMaximum request.message with
    | error failure => exact .inl ⟨failure,rfl,encodeRequest_refused made bytes encodes⟩
    | ok encoded =>
      refine .inr ⟨_,_,encodeRequest_wraps made bytes encodes,fun stops fuel => forward_midway ..,?_⟩
      intro v later perform' handle' ref'
      have onward := later.after (wrapped_evolves w ref id encoded)
      rw [deliver_sent (onward.decodes codecs) (later.requested (wrapped_made ..)),
        WriteRequest.returned_self (.inr bytes)]
      rfl

/-- A codec over a loopback, and a filter above it that has put another payload in the place of a
text. -/
def rewriting (message : Message) : Script Unit :=
  .call (.newHandler .adapter) fun _ => .call (.newProcessor (.loopback 0)) fun _ =>
  .call (.newSession (some 0) (some 0) 4 .unlimited) fun _ => .call (.newFilter (.codec 64 64)) fun _ =>
  .call (.add 0 .last "codec" (some 0)) fun _ => .call (.newRequest (.text [104]) none) fun _ =>
  .call (.wrapRequest 0 message) fun _ => .done .unit

def rewritten (message : Message) : World Unit := ((rewriting message).execute 8 { own := () }).2

/-- A text that wraps another request is wrapped once more, and comes back as it was written. -/
theorem deliver_returns_wrapper : ∃ passed w',
    deliver (performWith 8) 0 ⟨0,2,0⟩ 0 (.filterWrite 1) (rewritten (.text [105])) =
        forward (performWith 8) ⟨0,2,0⟩ 0 (.filterWrite passed) w' ∧
      deliver (performWith 8) 0 ⟨0,2,0⟩ 0 (.messageSent passed) w' =
        forward (performWith 8) ⟨0,2,0⟩ 0 (.messageSent 1) w' := by
  have decodes : (rewritten (.text [105])).store.filter 0 = .codec 64 64 := rfl
  have made : (rewritten (.text [105])).store.requests[1]? = some ⟨.text [105],none,some 0⟩ := by
    decide +kernel
  rcases @deliver_returns _ _ _ 0 _ _ _ _ (performWith 8) ⟨0,2,0⟩ decodes made with
    ⟨failure,refused,_⟩ | ⟨passed,w',written,_,comes⟩
  · cases refused
  · exact ⟨passed,w',written,comes w' (.ended (.refl w')) _ _ _⟩

/-- What has arrived at either end of a chain, in order. -/
def arrivals (s : Store) : List Event :=
  s.journal.reverse.filterMap fun
    | .arrived _ _ event => some event
    | _ => none

/-- Bytes that wrap another request go down as they are, and the other request comes back. -/
theorem rewritten_bytes_lost :
    arrivals (fire (performWith 8) 0 (.filterWrite 1) |>.leaves (rewritten (.bytes [1,104]))).store =
      [.filterWrite 1,.messageSent 0] := by
  decide +kernel

end Effect
end SessionPipeline
