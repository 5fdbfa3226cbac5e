import SessionPipeline.Proofs.Wire.Frame

/-! Encoding and decoding frames. What an encoder writes a decoder reads back, whatever part of one
more frame stands behind it; what a decoder has read is written again in the shortest form, which is
the buffer it came from exactly when every length in it was in shortest form already. -/
namespace SessionPipeline.Frame

/-- The message has a byte form that an encoder with this maximum takes. -/
def Sendable (maximum : UInt64) (message : Message) : Prop :=
  ∃ payload, message.payload? = some payload ∧ payload.length ≤ maximum.toNat

/-- The bytes that spell the lengths of these frames in the buffer they were read from. -/
def prefixes : List Bytes → Bytes → List Bytes
  | [], _ => []
  | frame :: later, buffer =>
    match VarInt.decode buffer 0 with
    | .ok (some (consumed, _)) =>
      buffer.take consumed :: prefixes later (buffer.drop (consumed + frame.length))
    | _ => []

theorem encode_of_payload {maximum : UInt64} {message : Message} {payload : Bytes}
    (has : message.payload? = some payload) (fits : payload.length ≤ maximum.toNat) :
    encode maximum message = .ok (encodeBytes payload) := by
  simp only [encode,has]
  exact if_neg (by omega)

theorem mapM_encode {maximum : UInt64} {messages : List Message}
    (sendable : ∀ m ∈ messages, Sendable maximum m) :
    messages.mapM (encode maximum) =
        .ok ((messages.filterMap Message.payload?).map encodeBytes) ∧
      ∀ payload ∈ messages.filterMap Message.payload?, payload.length ≤ maximum.toNat := by
  induction messages with
  | nil => exact ⟨rfl,by simp⟩
  | cons message rest ih =>
    obtain ⟨payload,has,fits⟩ := sendable message (by simp)
    obtain ⟨written,small⟩ := ih fun m member => sendable m (by simp [member])
    constructor
    · rw [List.mapM_cons,encode_of_payload has fits,written]
      simp [has,bind,Except.bind,pure,Except.pure]
    · simpa [has] using ⟨fits,by simpa using small⟩

theorem mapM_encode_bytes {maximum : UInt64} {frames : List Bytes}
    (small : ∀ frame ∈ frames, frame.length ≤ maximum.toNat) :
    frames.mapM (fun frame => encode maximum (.bytes frame)) = .ok (frames.map encodeBytes) := by
  induction frames with
  | nil => rfl
  | cons frame rest ih =>
    have first : encode maximum (.bytes frame) = .ok (encodeBytes frame) :=
      encode_of_payload rfl (small frame (by simp))
    rw [List.mapM_cons,first,ih fun f member => small f (by simp [member])]
    rfl

theorem framed_encode {maximum : UInt64} {payload : Bytes}
    (fits : payload.length ≤ maximum.toNat) :
    Framed maximum (VarInt.encode payload.length.toUInt64) payload := by
  refine ⟨?_,fits⟩
  have spelled := VarInt.spells_encode payload.length.toUInt64
  rwa [word_toNat (Nat.lt_of_le_of_lt fits maximum.toNat_lt)] at spelled

theorem split_encoded {maximum : UInt64} {payloads : List Bytes}
    (small : ∀ payload ∈ payloads, payload.length ≤ maximum.toNat) (rest : Bytes) :
    split maximum ((payloads.map encodeBytes).flatten ++ rest) =
      { split maximum rest with frames := payloads ++ (split maximum rest).frames } := by
  induction payloads with
  | nil => simp
  | cons payload payloads ih =>
    have framed := framed_encode (small payload (by simp))
    rw [List.map_cons,List.flatten_cons,encodeBytes,List.append_assoc,List.append_assoc,
      split_framed framed]
    have later := ih fun p member => small p (by simp [member])
    rw [later]
    rfl

theorem incomplete_of_cut {maximum : UInt64} {payload cut : Bytes}
    (fits : payload.length ≤ maximum.toNat) (front : cut <+: encodeBytes payload)
    (short : cut ≠ encodeBytes payload) : Incomplete maximum cut := by
  have framed := framed_encode fits
  obtain ⟨missing,whole⟩ := front
  have left : missing ≠ [] := by
    rintro rfl
    exact short (by simpa using whole)
  rw [encodeBytes] at whole
  rcases List.append_eq_append_iff.mp whole with ⟨middle,lead,rfl⟩ | ⟨part,rfl,body⟩
  · by_cases inside : middle = []
    · subst inside
      refine .inr ⟨cut,[],payload.length,by simp,?_,fits,?_⟩
      · rw [← List.append_nil cut,← lead]
        exact framed.spelled
      · simpa [List.length_pos_iff] using left
    · exact .inl ((lead ▸ framed.spelled).unfinished inside)
  · refine .inr ⟨_,part,payload.length,rfl,framed.spelled,fits,?_⟩
    have := List.length_pos_iff.mpr left
    rw [body,List.length_append]
    omega

theorem prefixes_framed {maximum : UInt64} {lead payload : Bytes}
    (framed : Framed maximum lead payload) (frames : List Bytes) (rest : Bytes) :
    prefixes (payload :: frames) (lead ++ (payload ++ rest)) = lead :: prefixes frames rest := by
  rw [prefixes,VarInt.decode_of_spells framed.spelled]
  simp [← List.drop_drop]

theorem length_of_mem_frames (maximum : UInt64) (stream : Bytes) :
    ∀ frame ∈ (split maximum stream).frames, frame.length ≤ maximum.toNat := by
  induction stream using stream_induction maximum with
  | incomplete stream incomplete => simp [split_incomplete incomplete]
  | offends stream failure offends => simp [split_offends offends]
  | framed lead payload rest framed ih =>
    rw [split_framed framed]
    simpa using ⟨framed.allowed,ih⟩

theorem length_encoded_le (maximum : UInt64) (stream : Bytes) :
    (((split maximum stream).frames.map encodeBytes).flatten ++ (split maximum stream).rest).length ≤
      stream.length := by
  induction stream using stream_induction maximum with
  | incomplete stream incomplete => simp [split_incomplete incomplete]
  | offends stream failure offends => simp [split_offends offends]
  | framed lead payload rest framed ih =>
    have value := word_toNat framed.spelled.value_lt
    have shortest := VarInt.length_encode_le (value.symm ▸ framed.spelled)
    rw [split_framed framed]
    simp only [List.map_cons,List.flatten_cons,List.length_append,encodeBytes] at ih ⊢
    omega

/-- Writing again what was read gives the same bytes exactly when the lengths were in shortest form. -/
theorem encoded_eq_iff (maximum : UInt64) (stream : Bytes) :
    ((split maximum stream).frames.map encodeBytes).flatten ++ (split maximum stream).rest = stream ↔
      ∀ lead ∈ prefixes (split maximum stream).frames stream, VarInt.Shortest lead := by
  induction stream using stream_induction maximum with
  | incomplete stream incomplete => simp [split_incomplete incomplete,prefixes]
  | offends stream failure offends => simp [split_offends offends,prefixes]
  | framed lead payload rest framed ih =>
    have value := word_toNat framed.spelled.value_lt
    have spelled := value.symm ▸ framed.spelled
    have shorter := VarInt.length_encode_le spelled
    have later := length_encoded_le maximum rest
    rw [split_framed framed,prefixes_framed framed,List.forall_mem_cons,
      VarInt.shortest_iff spelled,← ih]
    simp only [List.map_cons,List.flatten_cons,encodeBytes,List.append_assoc]
    -- No spelling of a length is shorter than its encoding, so equal streams agree frame by frame.
    constructor
    · intro equal
      have long := congrArg List.length equal
      simp only [List.length_append] at long later
      obtain ⟨front,behind⟩ := List.append_inj equal (by omega)
      exact ⟨front.symm,List.append_cancel_left behind⟩
    · rintro ⟨front,behind⟩
      rw [← front,behind]

/-- Encoding and decoding are inverse to each other, up to the form of the lengths. -/
theorem decode_encoded_stream (encoder decoder : UInt64) :
    (encoder ≤ decoder → ∀ (messages : List Message) (further : Message),
      (∀ m ∈ messages, Sendable encoder m) → Sendable encoder further →
      ∃ encodings last, messages.mapM (encode encoder) = .ok encodings ∧
        encode encoder further = .ok last ∧
        ∀ cut, cut <+: last → cut ≠ last → (encodings.flatten ++ cut).length < 2 ^ 64 →
          decode decoder (encodings.flatten ++ cut) =
            ⟨messages.filterMap Message.payload?,cut,none⟩) ∧
    ∀ (again : UInt64) (buffer rest : Bytes) (frames : List Bytes),
      decoder ≤ again → buffer.length < 2 ^ 64 → decode decoder buffer = ⟨frames,rest,none⟩ →
      ∃ encodings, frames.mapM (fun frame => encode again (.bytes frame)) = .ok encodings ∧
        decode decoder (encodings.flatten ++ rest) = ⟨frames,rest,none⟩ ∧
        (encodings.flatten ++ rest = buffer ↔
          ∀ lead ∈ prefixes frames buffer, VarInt.Shortest lead) := by
  constructor
  · intro wide messages further sendable ⟨payload,has,fits⟩
    obtain ⟨written,small⟩ := mapM_encode sendable
    have wide := UInt64.le_iff_toNat_le.mp wide
    refine ⟨_,_,written,encode_of_payload has fits,?_⟩
    intro cut front short addressable
    have incomplete : Incomplete decoder cut := incomplete_of_cut (by omega) front short
    rw [decode_eq_ok_iff addressable,
      split_encoded fun p member => Nat.le_trans (small p member) wide,split_incomplete incomplete,
      List.append_nil]
  · intro again buffer rest frames wide addressable decoded
    have read := (decode_eq_ok_iff addressable).mp decoded
    have small := length_of_mem_frames decoder buffer
    have shorter := length_encoded_le decoder buffer
    have same := encoded_eq_iff decoder buffer
    have stuck : Incomplete decoder (split decoder buffer).rest := incomplete_rest (by rw [read])
    rw [read] at small shorter same stuck
    have wide := UInt64.le_iff_toNat_le.mp wide
    refine ⟨_,mapM_encode_bytes fun f member => Nat.le_trans (small f member) wide,?_,same⟩
    rw [decode_eq_ok_iff (Nat.lt_of_le_of_lt shorter addressable),split_encoded small,split_incomplete stuck,List.append_nil]

/-- Two messages behind which a third is cut off after its length, and a length of one byte that is
written in two. -/
theorem decode_encoded_two_messages :
    (∃ encodings last,
      [Message.text [0x61],.bytes [0x62,0x63]].mapM (encode 2) = .ok encodings ∧
      encode 2 (.bytes [0x64,0x65]) = .ok last ∧ [0x02,0x64] <+: last ∧
      decode 3 (encodings.flatten ++ [0x02,0x64]) = ⟨[[0x61],[0x62,0x63]],[0x02,0x64],none⟩) ∧
    decode 3 [0x81,0x00,0x61,0x03] = ⟨[[0x61]],[0x03],none⟩ ∧
    ∃ encodings, [[0x61]].mapM (fun frame => encode 3 (.bytes frame)) = .ok encodings ∧
      decode 3 (encodings.flatten ++ [0x03]) = ⟨[[0x61]],[0x03],none⟩ ∧
      (encodings.flatten ++ [0x03] = [0x81,0x00,0x61,0x03] ↔
        ∀ lead ∈ prefixes [[0x61]] [0x81,0x00,0x61,0x03], VarInt.Shortest lead) := by
  have sendable (m : Message) (member : m ∈ [Message.text [0x61],.bytes [0x62,0x63]]) :
      Sendable 2 m := by
    simp only [List.mem_cons,List.not_mem_nil,or_false] at member
    rcases member with rfl | rfl
    · exact ⟨_,rfl,by decide⟩
    · exact ⟨_,rfl,by decide⟩
  have read : decode 3 [0x81,0x00,0x61,0x03] = ⟨[[0x61]],[0x03],none⟩ := by decide
  refine ⟨?_,read,(decode_encoded_stream 2 3).2 3 _ _ _ (by decide) (by decide) read⟩
  obtain ⟨encodings,last,written,final,decoded⟩ := (decode_encoded_stream 2 3).1 (by decide)
    [.text [0x61],.bytes [0x62,0x63]] (.bytes [0x64,0x65]) sendable ⟨_,rfl,by decide⟩
  obtain rfl : [[0x01,0x61],[0x02,0x62,0x63]] = encodings := Except.ok.inj written
  obtain rfl : [0x02,0x64,0x65] = last := Except.ok.inj final
  exact ⟨_,_,written,final,by decide,decoded _ (by decide) (by decide) (by decide)⟩

end SessionPipeline.Frame
