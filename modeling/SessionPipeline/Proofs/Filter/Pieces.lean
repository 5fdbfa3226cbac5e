import SessionPipeline.Event
import SessionPipeline.Proofs.Wire.Frame

/-! What a codec passes on of the messages that reach it. A stream of bytes is read piece by piece,
a piece ending with the first chunk that makes it fail; a piece is passed on as what `Frame.split`
finds in it, each frame as soon as its last byte is there. -/
namespace SessionPipeline.Codec

open SessionPipeline.Frame

def received (frames : List Bytes) : List Event :=
  frames.map fun frame => .messageReceived (.bytes frame)

def caught (failure : Option Failure) : List Event :=
  failure.toList.map fun failure => .exceptionCaught (some failure)

/-- What a stream is passed on as: its complete frames, then its failure if it has one. -/
def streamEvents (maximum : UInt64) (stream : Bytes) : List Event :=
  received (split maximum stream).frames ++ caught (split maximum stream).failure

/-- What is open of a piece behind one more chunk. -/
def openAfter (maximum : UInt64) (piece chunk : Bytes) : Bytes :=
  if (split maximum (piece ++ chunk)).failure.isSome then [] else piece ++ chunk

/-- Chunks joined to pieces, the first being already open; the last is still open. -/
def pieces (maximum : UInt64) (piece : Bytes) : List Bytes → List Bytes
  | [] => [piece]
  | chunk :: rest =>
    if (split maximum (piece ++ chunk)).failure.isSome then
      (piece ++ chunk) :: pieces maximum [] rest
    else pieces maximum (piece ++ chunk) rest

def chunk? : Message → Option Bytes
  | .bytes chunk => some chunk
  | _ => none

/-- What is open of the last piece when all messages are there. -/
def openPiece (maximum : UInt64) (piece : Bytes) (messages : List Message) : Bytes :=
  (messages.filterMap chunk?).foldl (openAfter maximum) piece

/-- What each message is passed on as. A chunk gives the frames that it completes, and the failure
that it brings about. -/
def passes (maximum : UInt64) (piece : Bytes) : List Message → List (List Event)
  | [] => []
  | message :: rest =>
    match chunk? message with
    | some chunk =>
      let decoded := split maximum (piece ++ chunk)
      (received (decoded.frames.drop (split maximum piece).frames.length) ++ caught decoded.failure)
        :: passes maximum (openAfter maximum piece chunk) rest
    | none => [.messageReceived message] :: passes maximum piece rest

def ofChunks (messages : List Message) (events : List (List Event)) : List Event :=
  ((messages.zip events).filter fun pair => (chunk? pair.1).isSome).flatMap (·.2)

/-- The events up to the first failure and that failure. -/
def throughFailure : List Event → List Event
  | [] => []
  | .exceptionCaught cause :: _ => [.exceptionCaught cause]
  | event :: rest => event :: throughFailure rest

/-- The bytes in the buffer together with each chunk are fewer than a word can count. -/
def Fits (maximum : UInt64) (piece : Bytes) : List Bytes → Prop
  | [] => True
  | chunk :: rest => (split maximum piece).rest.length + chunk.length < 2 ^ 64 ∧
      Fits maximum (openAfter maximum piece chunk) rest

instance decidableFits (maximum : UInt64) :
    (piece : Bytes) → (chunks : List Bytes) → Decidable (Fits maximum piece chunks)
  | _, [] => isTrue trivial
  | piece, chunk :: rest =>
    have := decidableFits maximum (openAfter maximum piece chunk) rest
    inferInstanceAs (Decidable (_ ∧ Fits maximum (openAfter maximum piece chunk) rest))

variable {maximum : UInt64}

theorem split_nil : split maximum [] = ⟨[],[],none⟩ := rfl

theorem openAfter_sound (piece chunk : Bytes) :
    (split maximum (openAfter maximum piece chunk)).failure = none := by
  unfold openAfter
  split
  · rw [split_nil]
  · rename_i sound
    simpa using sound

theorem frames_append {piece : Bytes} (sound : (split maximum piece).failure = none)
    (chunk : Bytes) :
    (split maximum (piece ++ chunk)).frames = (split maximum piece).frames ++
      (split maximum ((split maximum piece).rest ++ chunk)).frames := by
  rw [split_append sound]

theorem frames_drop {piece : Bytes} (sound : (split maximum piece).failure = none)
    (chunk : Bytes) :
    (split maximum (piece ++ chunk)).frames.drop (split maximum piece).frames.length =
      (split maximum ((split maximum piece).rest ++ chunk)).frames := by
  rw [frames_append sound,List.drop_left]

theorem failure_append {piece : Bytes} (sound : (split maximum piece).failure = none)
    (chunk : Bytes) :
    (split maximum (piece ++ chunk)).failure =
      (split maximum ((split maximum piece).rest ++ chunk)).failure := by
  rw [split_append sound]

theorem received_append (frames more : List Bytes) :
    received (frames ++ more) = received frames ++ received more := List.map_append

/-- With the frames of the open piece in front, the events of chunks are those of the pieces. -/
theorem ofChunks_passes (piece : Bytes) (messages : List Message)
    (sound : (split maximum piece).failure = none) :
    received (split maximum piece).frames ++
        ofChunks messages (passes maximum piece messages) =
      (pieces maximum piece (messages.filterMap chunk?)).flatMap (streamEvents maximum) := by
  induction messages generalizing piece with
  | nil => simp [ofChunks,passes,pieces,streamEvents,sound,caught]
  | cons message rest ih =>
    cases kind : chunk? message with
    | none =>
      have later := ih piece sound
      simpa [ofChunks,passes,kind] using later
    | some chunk =>
      have later := ih (openAfter maximum piece chunk) (openAfter_sound piece chunk)
      have now : received (split maximum piece).frames ++
          received ((split maximum (piece ++ chunk)).frames.drop (split maximum piece).frames.length)
            = received (split maximum (piece ++ chunk)).frames := by
        rw [frames_drop sound,frames_append sound,received_append]
      have head : ofChunks (message :: rest) (passes maximum piece (message :: rest)) =
          received ((split maximum (piece ++ chunk)).frames.drop (split maximum piece).frames.length)
            ++ (caught (split maximum (piece ++ chunk)).failure ++
              ofChunks rest (passes maximum (openAfter maximum piece chunk) rest)) := by
        simp [ofChunks,passes,kind]
      rw [head,← List.append_assoc,now,List.filterMap_cons_some kind]
      unfold openAfter at later ⊢
      simp only [pieces]
      split
      · rename_i failed
        rw [if_pos failed,split_nil] at later
        rw [List.flatMap_cons,← later,streamEvents]
        simp [received]
      · rename_i going
        have none : (split maximum (piece ++ chunk)).failure = none := by simpa using going
        rw [if_neg going] at later
        rw [← later,none]
        rfl

theorem throughFailure_received (frames : List Bytes) (events : List Event) :
    throughFailure (received frames ++ events) = received frames ++ throughFailure events := by
  induction frames with
  | nil => rfl
  | cons frame rest ih =>
    simp only [received] at ih ⊢
    simp [throughFailure,ih]

/-- Up to the first failure the pieces are one stream, however it was cut. -/
theorem throughFailure_pieces (piece : Bytes) (chunks : List Bytes)
    (sound : (split maximum piece).failure = none) :
    throughFailure ((pieces maximum piece chunks).flatMap (streamEvents maximum)) =
      streamEvents maximum (piece ++ chunks.flatten) := by
  induction chunks generalizing piece with
  | nil =>
    have whole := throughFailure_received (split maximum piece).frames []
    simpa [pieces,streamEvents,sound,caught,throughFailure] using whole
  | cons chunk rest ih =>
    rw [List.flatten_cons,← List.append_assoc,pieces]
    split
    · rename_i failed
      obtain ⟨failure,fails⟩ := Option.isSome_iff_exists.mp failed
      obtain ⟨frames,still⟩ := split_append_of_failure fails rest.flatten
      rw [List.flatMap_cons,streamEvents,streamEvents,frames,still,fails,List.append_assoc,
        throughFailure_received]
      rfl
    · rename_i going
      exact ih (piece ++ chunk) (by simpa using going)

end SessionPipeline.Codec
