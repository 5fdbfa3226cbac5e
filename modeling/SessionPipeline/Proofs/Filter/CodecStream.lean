import SessionPipeline.Execution
import SessionPipeline.Proofs.Effect.Basic
import SessionPipeline.Proofs.Filter.Pieces

/-! A codec in a chain, fed with messages one by one. Whatever stands behind it has to return and to
leave the codec alone; then each message is passed on as `Codec.passes` tells, and what the codec
holds back is the rest of the piece that is open. -/
namespace SessionPipeline

/-- The event, if the observation is of one that goes on from the entry of a handle. -/
def Observation.goesOn (handle : Handle) : Observation → Option Event
  | .delivered source _ _ event => if source = handle then some event else none
  | .arrived source _ event => if source = handle then some event else none
  | _ => none

/-- What has gone on from the entry of a handle so far, in order. -/
def Store.passedOn (s : Store) (handle : Handle) : List Event :=
  s.journal.reverse.filterMap (·.goesOn handle)

theorem passedOn_record {σ : Type} (w : World σ) (handle : Handle) (observation : Observation) :
    (w.record observation).store.passedOn handle =
      w.store.passedOn handle ++ (observation.goesOn handle).toList := by
  cases gone : observation.goesOn handle <;>
    simp [World.record,World.mapStore,Store.passedOn,gone]

theorem passedOn_logged {σ : Type} (w : World σ) (handle : Handle) (logger : String)
    (level : Logging.Level) (text : Bytes) (context : Logging.Context) :
    (w.logged logger level text context).store.passedOn handle = w.store.passedOn handle := by
  have silent (emissions : List Logging.Emission) :
      (emissions.map Observation.emitted).filterMap (·.goesOn handle) = [] := by
    simp [Observation.goesOn]
  simp only [World.logged,World.mapStore,Store.passedOn,List.reverse_append,List.reverse_reverse,
    List.filterMap_append,silent,List.append_nil]

theorem passing_goesOn (c : Chain) (handle : Handle) (ref : SessionRef) (event : Event) :
    (Effect.passing c handle ref event).goesOn handle = some event := by
  unfold Effect.passing
  dsimp only
  split <;> simp [Observation.goesOn]

theorem pendingOf_setAttribute (s : Session) (codec : FilterId) (rest : Bytes) :
    (s.setAttribute (.pending codec) (.bytes rest)).pendingOf codec = rest := by
  simp [Session.setAttribute,Session.pendingOf,Session.bytesAttribute?,Session.attribute?]

namespace Codec

open Effect SessionPipeline.Frame

variable {σ : Type} {perform : Perform σ} {codec : FilterId} {handle : Handle} {ref : SessionRef}
  {maximum : UInt64} {ready : World σ → Prop}

/-- Brings messages to the filter of an entry one by one and tells what goes on at each. -/
def receiveEach (perform : Perform σ) (codec : FilterId) (handle : Handle) (ref : SessionRef) :
    List Message → Effect σ (List (List Event))
  | [] => return []
  | message :: rest => do
    let earlier := (← store).passedOn handle
    deliver perform codec handle ref (.messageReceived message)
    let passed := (← store).passedOn handle
    return passed.drop earlier.length :: (← receiveEach perform codec handle ref rest)

/-- A linked codec and, behind it, something that brings every event to its end without touching
the codec. `ready` is what holds of the world between two events. -/
structure Downstream (perform : Perform σ) (codec : FilterId) (handle : Handle) (ref : SessionRef)
    (maximum : UInt64) (ready : World σ → Prop) : Prop where
  present : ∀ w, ready w → ref < w.store.sessions.size
  attached : ∀ w, ready w → w.store.isAttached handle
  decodes : ∀ w, ready w → ∃ writeMaximum, w.store.filter codec = .codec writeMaximum maximum
  returns : ∀ w event, ready w →
    event.kind = .messageReceived ∨ event.kind = .exceptionCaught → ∃ w',
      beyond perform (w.store.chain handle.owner) handle ref event w = .ok () w' ∧ ready w' ∧
        (w'.store.session ref).pendingOf codec = (w.store.session ref).pendingOf codec ∧
        w'.store.passedOn handle = w.store.passedOn handle
  recorded : ∀ w observation, ready w → ready (w.record observation)
  logs : ∀ w logger level text, ready w → ready (w.logged logger level text)
  keeps : ∀ w rest, ready w →
    ready (w.mapSession ref fun s => s.setAttribute (.pending codec) (.bytes rest))

/-- The world `w'` is ready and has, since `w`, passed these events on and nothing else; the codec
holds `rest` back. -/
structure Passed (codec : FilterId) (handle : Handle) (ref : SessionRef) (ready : World σ → Prop)
    (w : World σ) (events : List Event) (rest : Bytes) (w' : World σ) : Prop where
  ready : ready w'
  events : w'.store.passedOn handle = w.store.passedOn handle ++ events
  rest : (w'.store.session ref).pendingOf codec = rest

theorem Passed.trans {w₁ w₂ w₃ : World σ} {before after : List Event} {rest₁ rest₂ : Bytes}
    (first : Passed codec handle ref ready w₁ before rest₁ w₂)
    (second : Passed codec handle ref ready w₂ after rest₂ w₃) :
    Passed codec handle ref ready w₁ (before ++ after) rest₂ w₃ :=
  ⟨second.ready,by rw [second.events,first.events,List.append_assoc],second.rest⟩

theorem receiveEach_cons {w w₁ w₂ : World σ} {message : Message} {rest : List Message}
    {events : List Event} {later : List (List Event)} {held : Bytes}
    (delivered : deliver perform codec handle ref (.messageReceived message) w = .ok () w₁)
    (passed : Passed codec handle ref ready w events held w₁)
    (received : receiveEach perform codec handle ref rest w₁ = .ok later w₂) :
    receiveEach perform codec handle ref (message :: rest) w = .ok (events :: later) w₂ := by
  rw [receiveEach,bind_of_ok (store_apply w),bind_of_ok delivered,bind_of_ok (store_apply w₁),
    bind_of_ok received,passed.events,List.drop_left]
  rfl

section Downstream

variable (downstream : Downstream perform codec handle ref maximum ready)
include downstream

theorem forward_passed {w : World σ} (start : ready w) (event : Event)
    (kind : event.kind = .messageReceived ∨ event.kind = .exceptionCaught) : ∃ w',
    forward perform handle ref event w = .ok () w' ∧
      Passed codec handle ref ready w [event] ((w.store.session ref).pendingOf codec) w' := by
  let told := w.record (passing (w.store.chain handle.owner) handle ref event)
  have readyTold : ready told := downstream.recorded w _ start
  obtain ⟨w',returned,later,pending,passed⟩ := downstream.returns told event readyTold kind
  have linked : (w.store.chain handle.owner).isCurrent handle = true := downstream.attached w start
  refine ⟨w',?_,later,?_,pending⟩
  · rw [forward,bind_of_ok (chain_apply _ w),if_pos linked,bind_of_ok (observe_apply _ w)]
    exact returned
  · rw [passed,passedOn_record,passing_goesOn]
    rfl

theorem forwardFrames_passed {w : World σ} (start : ready w) (frames : List Bytes) : ∃ w',
    forwardFrames (forward perform handle ref) frames w = .ok () w' ∧
      Passed codec handle ref ready w (received frames) ((w.store.session ref).pendingOf codec) w' := by
  induction frames generalizing w with
  | nil => exact ⟨w,rfl,start,by simp [received],rfl⟩
  | cons frame rest ih =>
    obtain ⟨w₁,ran,first⟩ := forward_passed downstream start (.messageReceived (.bytes frame))
      (.inl rfl)
    obtain ⟨w₂,ended,second⟩ := ih first.ready
    rw [first.rest] at second
    refine ⟨w₂,?_,first.trans second⟩
    rw [forwardFrames,bind_of_ok ran,ended]

theorem keepPending_passed {w : World σ} (start : ready w) (rest : Bytes) : ∃ w',
    keepPending codec ref rest w = .ok () w' ∧ Passed codec handle ref ready w [] rest w' := by
  refine ⟨_,modifySession_apply ref _ w,downstream.keeps w rest start,?_,?_⟩
  · rw [List.append_nil]
    rfl
  · rw [World.session_mapSession (downstream.present w start),pendingOf_setAttribute]

theorem log_passed {w : World σ} (start : ready w) (logger : String) (level : Logging.Level)
    (text : String) : ∃ w', log logger level text w = .ok () w' ∧
      Passed codec handle ref ready w [] ((w.store.session ref).pendingOf codec) w' :=
  ⟨_,log_apply logger level text w,downstream.logs w _ _ _ start,
    by rw [passedOn_logged,List.append_nil],rfl⟩

/-- A chunk behind the bytes held back: the frames that it completes go on, then the failure. -/
theorem receiveBytes_passed {w : World σ} (start : ready w) {piece : Bytes}
    (sound : (split maximum piece).failure = none)
    (held : (w.store.session ref).pendingOf codec = (split maximum piece).rest) (chunk : Bytes)
    (small : (split maximum piece).rest.length + chunk.length < 2 ^ 64) : ∃ w',
    receiveBytes (forward perform handle ref) codec maximum ref chunk w = .ok () w' ∧
      Passed codec handle ref ready w
        (received ((split maximum (piece ++ chunk)).frames.drop (split maximum piece).frames.length)
          ++ caught (split maximum (piece ++ chunk)).failure)
        (split maximum (openAfter maximum piece chunk)).rest w' := by
  rw [frames_drop sound,failure_append sound]
  have read := @decode_eq_split maximum ((split maximum piece).rest ++ chunk) (by simpa using small)
  unfold receiveBytes
  rw [bind_of_ok (session_apply ref w),held]
  cases failed : (split maximum ((split maximum piece).rest ++ chunk)).failure with
  | none =>
    rw [failed,if_neg (by simp)] at read
    have rest : (split maximum (openAfter maximum piece chunk)).rest =
        (split maximum ((split maximum piece).rest ++ chunk)).rest := by
      rw [openAfter,failure_append sound,failed,if_neg (by simp),split_append sound]
    obtain ⟨w₁,kept,first⟩ := keepPending_passed downstream start
      (split maximum ((split maximum piece).rest ++ chunk)).rest
    obtain ⟨w₂,sent,second⟩ := forwardFrames_passed downstream first.ready
      (split maximum ((split maximum piece).rest ++ chunk)).frames
    rw [first.rest] at second
    refine ⟨w₂,?_,?_⟩
    · simp only [read,failed]
      rw [bind_of_ok kept,sent]
    · rw [rest]
      simpa [caught] using first.trans second
  | some failure =>
    rw [failed,if_pos Option.isSome_some] at read
    have rest : (split maximum (openAfter maximum piece chunk)).rest = [] := by
      rw [openAfter,failure_append sound,failed,if_pos Option.isSome_some,split_nil]
    obtain ⟨w₀,logged,zeroth⟩ := log_passed downstream start codecLogger .warning
      ("session " ++ toString (w.store.session ref).id ++ ": decoder failed, dropping "
        ++ toString ((split maximum piece).rest ++ chunk).length ++ " bytes: " ++ failure.message)
    obtain ⟨w₁,kept,first⟩ := keepPending_passed downstream zeroth.ready []
    obtain ⟨w₂,sent,second⟩ := forwardFrames_passed downstream first.ready
      (split maximum ((split maximum piece).rest ++ chunk)).frames
    obtain ⟨w₃,told,third⟩ := forward_passed downstream second.ready
      (.exceptionCaught (some failure)) (.inr rfl)
    rw [second.rest,first.rest] at third
    refine ⟨w₃,?_,?_⟩
    · simp only [read,failed]
      rw [bind_of_ok logged,bind_of_ok kept,bind_of_ok sent,told]
    · rw [rest]
      simpa [caught] using zeroth.trans (first.trans (second.trans third))

theorem deliver_codec {w : World σ} (start : ready w) (event : Event) : ∃ writeMaximum,
    deliver perform codec handle ref event w =
      codecEvent (forward perform handle ref) codec writeMaximum maximum ref event w := by
  obtain ⟨writeMaximum,found⟩ := downstream.decodes w start
  refine ⟨writeMaximum,?_⟩
  rw [deliver,react,bind_of_ok (filter_apply codec w),found]

theorem deliver_other_passed {w : World σ} (start : ready w) {message : Message}
    (other : chunk? message = none) : ∃ w',
    deliver perform codec handle ref (.messageReceived message) w = .ok () w' ∧
      Passed codec handle ref ready w [.messageReceived message]
        ((w.store.session ref).pendingOf codec) w' := by
  obtain ⟨writeMaximum,delivered⟩ := deliver_codec downstream start (.messageReceived message)
  obtain ⟨w',sent,passed⟩ := forward_passed downstream start (.messageReceived message) (.inl rfl)
  refine ⟨w',?_,passed⟩
  rw [delivered,← sent]
  cases message with
  | bytes chunk => simp [chunk?] at other
  | _ => rfl

theorem deliver_passed {w : World σ} (start : ready w) {piece : Bytes}
    (sound : (split maximum piece).failure = none)
    (held : (w.store.session ref).pendingOf codec = (split maximum piece).rest) (chunk : Bytes)
    (small : (split maximum piece).rest.length + chunk.length < 2 ^ 64) : ∃ w',
    deliver perform codec handle ref (.messageReceived (.bytes chunk)) w = .ok () w' ∧
      Passed codec handle ref ready w
        (received ((split maximum (piece ++ chunk)).frames.drop (split maximum piece).frames.length)
          ++ caught (split maximum (piece ++ chunk)).failure)
        (split maximum (openAfter maximum piece chunk)).rest w' := by
  obtain ⟨writeMaximum,delivered⟩ :=
    deliver_codec downstream start (.messageReceived (.bytes chunk))
  rw [delivered]
  exact receiveBytes_passed downstream start sound held chunk small

/-- A run over messages with a sound piece open, the bytes held back being its rest. -/
theorem receiveEach_from {w : World σ} (start : ready w) {piece : Bytes}
    (sound : (split maximum piece).failure = none)
    (held : (w.store.session ref).pendingOf codec = (split maximum piece).rest)
    (messages : List Message) (fits : Fits maximum piece (messages.filterMap chunk?)) : ∃ w',
    receiveEach perform codec handle ref messages w = .ok (passes maximum piece messages) w' ∧
      ready w' ∧ (w'.store.session ref).pendingOf codec =
        (split maximum (openPiece maximum piece messages)).rest := by
  -- The open piece grows with each chunk and starts anew behind a failure.
  induction messages generalizing w piece with
  | nil => exact ⟨w,rfl,start,held⟩
  | cons message rest ih =>
    cases kind : chunk? message with
    | none =>
      rw [List.filterMap_cons_none kind] at fits
      obtain ⟨w₁,delivered,passed⟩ := deliver_other_passed downstream start kind
      obtain ⟨w₂,ran,later,left⟩ := ih passed.ready sound (passed.rest.trans held) fits
      refine ⟨w₂,?_,later,?_⟩
      · rw [receiveEach_cons delivered passed ran,passes]
        simp only [kind]
      · rwa [openPiece,List.filterMap_cons_none kind]
    | some chunk =>
      obtain rfl : message = .bytes chunk := by
        cases message <;> simp [chunk?] at kind
        rw [kind]
      obtain ⟨small,fit⟩ := fits
      obtain ⟨w₁,delivered,passed⟩ := deliver_passed downstream start sound held chunk small
      obtain ⟨w₂,ran,later,left⟩ :=
        ih passed.ready (openAfter_sound piece chunk) passed.rest fit
      exact ⟨w₂,receiveEach_cons delivered passed ran,later,left⟩

/-- Messages that reach a codec with nothing held back are passed on one by one as `passes` tells:
chunks of bytes piece by piece, each piece as its frames and then its failure, if it has one, and
other messages as they are; what is held back then is the rest of the open piece. Up to the first
failure, what chunks are passed on as is told by the bytes alone, however they were cut. -/
theorem receiveEach_passes {w : World σ} (start : ready w)
    (fresh : w.store.pendingBytes codec ref = 0) (messages : List Message)
    (fits : Fits maximum [] (messages.filterMap chunk?)) :
    (∃ w', receiveEach perform codec handle ref messages w = .ok (passes maximum [] messages) w' ∧
      ready w' ∧ w'.store.pendingBytes codec ref =
        (split maximum (openPiece maximum [] messages)).rest.length) ∧
    ofChunks messages (passes maximum [] messages) =
      (pieces maximum [] (messages.filterMap chunk?)).flatMap (streamEvents maximum) ∧
    throughFailure (ofChunks messages (passes maximum [] messages)) =
      streamEvents maximum (messages.filterMap chunk?).flatten := by
  have empty : (w.store.session ref).pendingOf codec = (split maximum []).rest :=
    List.eq_nil_of_length_eq_zero fresh
  obtain ⟨w',ran,later,left⟩ := receiveEach_from downstream start rfl empty messages fits
  have joined := @ofChunks_passes maximum [] messages rfl
  refine ⟨⟨w',ran,later,congrArg List.length left⟩,joined,?_⟩
  have whole := @throughFailure_pieces maximum [] (messages.filterMap chunk?) rfl
  rw [← joined] at whole
  exact whole

end Downstream

/-- The codec is linked, behind all other filters, and the handler has nothing to do. -/
structure AtEnd (codec : FilterId) (handle : Handle) (ref : SessionRef) (maximum : UInt64)
    (w : World σ) : Prop where
  present : ref < w.store.sessions.size
  attached : w.store.isAttached handle
  decodes : ∃ writeMaximum, w.store.filter codec = .codec writeMaximum maximum
  last : (w.store.chain handle.owner).following false handle.entry = Chain.tail
  passive : w.store.handler (w.store.session ref).handler = .adapter

theorem AtEnd.mapSession {w : World σ} (atEnd : AtEnd codec handle ref maximum w)
    {change : Session → Session} (chain : ∀ s, (change s).chain = s.chain)
    (handler : ∀ s, (change s).handler = s.handler) :
    AtEnd codec handle ref maximum (w.mapSession ref change) := by
  obtain ⟨present,attached,decodes,last,passive⟩ := atEnd
  have sameChain : (w.mapSession ref change).store.chain handle.owner = w.store.chain handle.owner :=
    World.session_mapSession_eq (·.chain) chain w ref handle.owner
  have sameHandler : ((w.mapSession ref change).store.session ref).handler =
      (w.store.session ref).handler := World.session_mapSession_eq (·.handler) handler w ref ref
  refine ⟨?_,?_,decodes,?_,?_⟩
  · simpa [World.mapSession,World.mapStore] using present
  · rwa [Store.isAttached,sameChain]
  · rwa [sameChain]
  · rw [sameHandler]
    exact passive

theorem atEnd_downstream :
    Downstream perform codec handle ref maximum (AtEnd (σ := σ) codec handle ref maximum) where
  present _ ready := ready.present
  attached _ ready := ready.attached
  decodes _ ready := ready.decodes
  returns w event ready kind := by
    have inbound : event.outbound = false := by
      rcases kind with kind | kind <;> simp [Event.outbound,kind,EventKind.outbound]
    have beyondLast : beyond perform (w.store.chain handle.owner) handle ref event =
        terminate perform ref event := by
      simp only [beyond,inbound,ready.last]
      rfl
    have idle {w : World σ} (ready : AtEnd codec handle ref maximum w) (event : Event) :
        callHandler perform ref event w = .ok () w := by
      rw [callHandler,bind_of_ok (store_apply w),bind_of_ok (session_apply ref w),ready.passive]
      rfl
    rw [beyondLast]
    cases event <;> simp [Event.kind] at kind
    case exceptionCaught cause => exact ⟨w,idle ready _,ready,rfl,rfl⟩
    case messageReceived message =>
      let count (s : Session) : Session := { s with readMessages := s.readMessages + 1 }
      have held (s : Session) : (count s).pendingOf codec = s.pendingOf codec := rfl
      have counted : AtEnd codec handle ref maximum (w.mapSession ref count) :=
        ready.mapSession (fun _ => rfl) (fun _ => rfl)
      have same := World.session_mapSession_eq (·.pendingOf codec) held w ref ref
      refine ⟨w.mapSession ref count,?_,counted,same,rfl⟩
      rw [terminate,bind_of_ok (modifySession_apply ref _ w),idle counted]
  recorded _ _ ready := ⟨ready.present,ready.attached,ready.decodes,ready.last,ready.passive⟩
  logs _ _ _ _ ready := ⟨ready.present,ready.attached,ready.decodes,ready.last,ready.passive⟩
  keeps _ _ ready := ready.mapSession (fun _ => rfl) (fun _ => rfl)

/-- A session with one filter, a codec, and a handler that does nothing. -/
def soleCodec : World Unit :=
  let chain := (Chain.empty.allocate "codec" 0).2.insert 2 "codec" .first
  let session : Session := { id := 1, handler := 0, processor := 0, queue := default, chain := chain }
  { own := (), store := { filters := #[.codec 8 8], handlers := #[.adapter], sessions := #[session] } }

theorem soleCodec_atEnd : AtEnd 0 ⟨0,2,0⟩ 0 8 soleCodec :=
  ⟨by decide,by decide,⟨8,rfl⟩,by decide,rfl⟩

/-- A frame cut in two with a number in between, an empty frame, a length that is too large, and a
new piece. -/
theorem soleCodec_passes : ∃ w',
    receiveEach (performWith 1) 0 ⟨0,2,0⟩ 0
      [.bytes [2,104],.int 5,.bytes [105,0,9],.bytes [1,7,3]] soleCodec =
        .ok [[],[.messageReceived (.int 5)],
          [.messageReceived (.bytes [104,105]),.messageReceived (.bytes []),
            .exceptionCaught (some (oversized 8 9))],
          [.messageReceived (.bytes [7])]] w' ∧ w'.store.pendingBytes 0 0 = 1 := by
  obtain ⟨⟨w',ran,_,left⟩,_⟩ := receiveEach_passes atEnd_downstream soleCodec_atEnd rfl
    [.bytes [2,104],.int 5,.bytes [105,0,9],.bytes [1,7,3]] (by decide)
  exact ⟨w',ran,left⟩

end Codec
end SessionPipeline
