import SessionPipeline.Proofs.Wire.VarInt
import SessionPipeline.Wire.Frame

/-! How a stream of any length falls into frames. `split` reads a stream in one go with sizes as
numbers; decoding a buffer, whose size is a word, gives the same, and splitting a stream piece by
piece gives what splitting the whole does. -/
namespace SessionPipeline.Frame

/-- What stands at the front of a stream. -/
def look (maximum : UInt64) (stream : Bytes) : Head :=
  match VarInt.decode stream 0 with
  | .error failure => .failed failure
  | .ok none => .incomplete
  | .ok (some (consumed, length)) =>
    if length > maximum then .failed (oversized maximum length)
    else if stream.length - consumed < length.toNat then .incomplete
    else .frame consumed length

def splitLoop (maximum : UInt64) : Nat → Bytes → Decoded
  | 0, stream => ⟨[], stream, none⟩
  | fuel + 1, stream =>
    match look maximum stream with
    | .incomplete => ⟨[], stream, none⟩
    | .failed failure => ⟨[], stream, some failure⟩
    | .frame consumed length =>
      let body := stream.drop consumed
      let later := splitLoop maximum fuel (body.drop length.toNat)
      { later with frames := body.take length.toNat :: later.frames }

/-- The complete frames at the front of a stream, what stands behind them, and the failure that is
found there, if any. -/
def split (maximum : UInt64) (stream : Bytes) : Decoded := splitLoop maximum stream.length stream

/-- The bytes are one frame: a length that is allowed and that many bytes. -/
structure Framed (maximum : UInt64) (lead payload : Bytes) : Prop where
  spelled : VarInt.Spells 0 lead payload.length
  allowed : payload.length ≤ maximum.toNat

/-- The stream ends inside its first frame. -/
def Incomplete (maximum : UInt64) (stream : Bytes) : Prop :=
  VarInt.Unfinished 0 stream ∨ ∃ lead part length, stream = lead ++ part ∧
    VarInt.Spells 0 lead length ∧ length ≤ maximum.toNat ∧ part.length < length

/-- The stream begins with no length, or with one that is not allowed. -/
def Offends (maximum : UInt64) (stream : Bytes) (failure : Failure) : Prop :=
  (VarInt.Overflows 0 stream ∧ failure = .decoding "varint overflows 64 bits") ∨
    ∃ lead rest length, stream = lead ++ rest ∧ VarInt.Spells 0 lead length ∧
      maximum.toNat < length ∧ failure = oversized maximum length.toUInt64

theorem word_toNat {n : Nat} (small : n < 2 ^ 64) : n.toUInt64.toNat = n := by
  simp only [Nat.toUInt64,UInt64.toNat_ofNat']
  exact Nat.mod_eq_of_lt small

theorem look_of_spells {maximum : UInt64} {lead rest : Bytes} {length : Nat}
    (spelled : VarInt.Spells 0 lead length) :
    look maximum (lead ++ rest) =
      if maximum.toNat < length then .failed (oversized maximum length.toUInt64)
      else if rest.length < length then .incomplete
      else .frame lead.length length.toUInt64 := by
  have small := word_toNat spelled.value_lt
  simp only [look,VarInt.decode_of_spells spelled rest,gt_iff_lt,UInt64.lt_iff_toNat_lt,small,
    List.length_append,Nat.add_sub_cancel_left]

theorem look_framed {maximum : UInt64} {lead payload : Bytes} (framed : Framed maximum lead payload)
    (rest : Bytes) :
    look maximum (lead ++ (payload ++ rest)) = .frame lead.length payload.length.toUInt64 := by
  rw [look_of_spells framed.spelled,if_neg (by have := framed.allowed; omega),
    if_neg (by simp)]

theorem look_eq_incomplete {maximum : UInt64} {stream : Bytes}
    (incomplete : Incomplete maximum stream) : look maximum stream = .incomplete := by
  rcases incomplete with unfinished | ⟨lead,part,length,rfl,spelled,allowed,short⟩
  · rw [look,VarInt.decode_eq_none_iff.mpr unfinished]
  · rw [look_of_spells spelled,if_neg (by omega),if_pos short]

theorem look_eq_failed {maximum : UInt64} {stream : Bytes} {failure : Failure}
    (offends : Offends maximum stream failure) : look maximum stream = .failed failure := by
  rcases offends with overflows | ⟨lead,rest,length,rfl,spelled,large,rfl⟩
  · rw [look,VarInt.decode_eq_error_iff.mpr overflows]
  · rw [look_of_spells spelled,if_pos large]

theorem front_cases (maximum : UInt64) (stream : Bytes) :
    Incomplete maximum stream ∨ (∃ failure, Offends maximum stream failure) ∨
      ∃ lead payload rest, stream = lead ++ (payload ++ rest) ∧ Framed maximum lead payload := by
  rcases VarInt.spells_or_unfinished_or_overflows 0 stream (by decide) with
    ⟨lead,rest,length,rfl,spelled⟩ | unfinished | overflows
  · by_cases large : maximum.toNat < length
    · exact .inr (.inl ⟨_,.inr ⟨lead,rest,length,rfl,spelled,large,rfl⟩⟩)
    by_cases short : rest.length < length
    · exact .inl (.inr ⟨lead,rest,length,rfl,spelled,by omega,short⟩)
    have long : (rest.take length).length = length := by simp; omega
    refine .inr (.inr ⟨lead,rest.take length,rest.drop length,by simp,⟨?_,by omega⟩⟩)
    rwa [long]
  · exact .inl (.inl unfinished)
  · exact .inr (.inl ⟨_,.inl ⟨overflows,rfl⟩⟩)

theorem splitLoop_framed {maximum : UInt64} {lead payload : Bytes}
    (framed : Framed maximum lead payload) (fuel : Nat) (rest : Bytes) :
    splitLoop maximum (fuel + 1) (lead ++ (payload ++ rest)) =
      { splitLoop maximum fuel rest with
        frames := payload :: (splitLoop maximum fuel rest).frames } := by
  rw [splitLoop,look_framed framed]
  simp only [word_toNat framed.spelled.value_lt,List.drop_left,List.take_left]

/-- A frame has at least one byte, so as much fuel as there are bytes is enough. -/
theorem splitLoop_eq_split (maximum : UInt64) (fuel : Nat) (stream : Bytes)
    (enough : stream.length ≤ fuel) : splitLoop maximum fuel stream = split maximum stream := by
  induction fuel using Nat.strongRecOn generalizing stream with
  | ind fuel ih =>
    rcases front_cases maximum stream with incomplete | ⟨failure,offends⟩ |
      ⟨lead,payload,rest,rfl,framed⟩
    · have seen := look_eq_incomplete incomplete
      cases fuel <;> cases long : stream.length <;> simp [split,splitLoop,seen,long]
    · have seen := look_eq_failed offends
      have nonempty : stream ≠ [] := by
        rintro rfl
        simp [look,VarInt.decode,VarInt.decodeFrom] at seen
      have positive := List.length_pos_iff.mpr nonempty
      obtain ⟨n,rfl⟩ : ∃ n, fuel = n + 1 := ⟨fuel - 1,by omega⟩
      obtain ⟨m,long⟩ : ∃ m, stream.length = m + 1 := ⟨stream.length - 1,by omega⟩
      simp [split,splitLoop,seen,long]
    · have positive := framed.spelled.length_pos
      simp only [List.length_append] at enough
      obtain ⟨n,rfl⟩ : ∃ n, fuel = n + 1 := ⟨fuel - 1,by omega⟩
      obtain ⟨m,long⟩ : ∃ m, (lead ++ (payload ++ rest)).length = m + 1 :=
        ⟨(lead ++ (payload ++ rest)).length - 1,by simp only [List.length_append]; omega⟩
      have room : rest.length ≤ m := by
        simp only [List.length_append] at long
        omega
      -- A frame takes a byte at least, so both sides have fuel left for the rest.
      rw [split,long,splitLoop_framed framed,splitLoop_framed framed,ih n (by omega) rest (by omega)]
      by_cases smaller : m < n + 1
      · rw [ih m smaller rest room]
      · simp only [List.length_append] at long
        omega

theorem split_incomplete {maximum : UInt64} {stream : Bytes}
    (incomplete : Incomplete maximum stream) : split maximum stream = ⟨[],stream,none⟩ := by
  rw [← splitLoop_eq_split maximum (stream.length + 1) stream (by omega),splitLoop,
    look_eq_incomplete incomplete]

theorem split_offends {maximum : UInt64} {stream : Bytes} {failure : Failure}
    (offends : Offends maximum stream failure) :
    split maximum stream = ⟨[],stream,some failure⟩ := by
  rw [← splitLoop_eq_split maximum (stream.length + 1) stream (by omega),splitLoop,
    look_eq_failed offends]

theorem split_framed {maximum : UInt64} {lead payload : Bytes}
    (framed : Framed maximum lead payload) (rest : Bytes) :
    split maximum (lead ++ (payload ++ rest)) =
      { split maximum rest with frames := payload :: (split maximum rest).frames } := by
  rw [← splitLoop_eq_split maximum ((lead ++ (payload ++ rest)).length + 1) _ (by omega),
    splitLoop_framed framed,
    splitLoop_eq_split maximum _ rest (by simp only [List.length_append]; omega)]

/-- Induction on a stream, frame by frame. -/
theorem stream_induction (maximum : UInt64) {P : Bytes → Prop}
    (incomplete : ∀ stream, Incomplete maximum stream → P stream)
    (offends : ∀ stream failure, Offends maximum stream failure → P stream)
    (framed : ∀ lead payload rest, Framed maximum lead payload → P rest →
      P (lead ++ (payload ++ rest))) (stream : Bytes) : P stream := by
  induction size : stream.length using Nat.strongRecOn generalizing stream with
  | ind n ih =>
    rcases front_cases maximum stream with stuck | ⟨failure,bad⟩ | ⟨lead,payload,rest,rfl,good⟩
    · exact incomplete _ stuck
    · exact offends _ _ bad
    · have := good.spelled.length_pos
      refine framed _ _ _ good (ih rest.length ?_ rest rfl)
      simp only [List.length_append] at size
      omega

/-- The position is inside the buffer and so is the length that was read, so no subtraction wraps. -/
theorem room_toNat {size position : UInt64} {lead rest : Bytes}
    (sized : size.toNat = position.toNat + (lead ++ rest).length) :
    (size - position - lead.length.toUInt64).toNat = rest.length := by
  have bound := size.toNat_lt
  rw [List.length_append] at sized
  have behind : (size - position).toNat = lead.length + rest.length := by
    rw [UInt64.toNat_sub_of_le _ _ (UInt64.le_iff_toNat_le.mpr (by omega))]
    omega
  have consumed : lead.length.toUInt64.toNat = lead.length := word_toNat (by omega)
  rw [UInt64.toNat_sub_of_le _ _ (UInt64.le_iff_toNat_le.mpr (by omega))]
  omega

/-- A frame that ends inside the buffer takes the position to a word. -/
theorem advance_toNat {size position : UInt64} {lead payload rest : Bytes}
    (sized : size.toNat = position.toNat + (lead ++ (payload ++ rest)).length) :
    (position + (lead.length.toUInt64 + payload.length.toUInt64)).toNat =
      position.toNat + (lead.length + payload.length) := by
  have bound := size.toNat_lt
  simp only [List.length_append] at sized
  have first : lead.length.toUInt64.toNat = lead.length := word_toNat (by omega)
  have second : payload.length.toUInt64.toNat = payload.length := word_toNat (by omega)
  rw [UInt64.toNat_add,UInt64.toNat_add,first,second]
  omega

/-- With the size and the position of a buffer as words nothing is lost, as long as they add up. -/
theorem head_eq_look {maximum size position : UInt64} {rest : Bytes}
    (sized : size.toNat = position.toNat + rest.length) :
    head maximum size position rest = look maximum rest := by
  unfold head look
  cases read : VarInt.decode rest 0 with
  | error failure => rfl
  | ok found =>
    cases found with
    | none => rfl
    | some pair =>
      obtain ⟨consumed,length⟩ := pair
      obtain ⟨front,tail,rfl,rfl,spelled⟩ := VarInt.decode_eq_some_iff.mp read
      simp only [UInt64.lt_iff_toNat_lt,room_toNat sized,List.length_append,Nat.add_sub_cancel_left]

theorem decodeLoop_eq_splitLoop (maximum size : UInt64) (fuel : Nat) (position : UInt64)
    (rest : Bytes) (sized : size.toNat = position.toNat + rest.length) :
    decodeLoop maximum size fuel position rest = splitLoop maximum fuel rest := by
  induction fuel generalizing position rest with
  | zero => rfl
  | succ fuel ih =>
    rw [decodeLoop,splitLoop,head_eq_look sized]
    rcases front_cases maximum rest with incomplete | ⟨failure,offends⟩ |
      ⟨lead,payload,tail,rfl,framed⟩
    · rw [look_eq_incomplete incomplete]
    · rw [look_eq_failed offends]
    · have advance := advance_toNat sized
      simp only [List.length_append] at sized
      rw [look_framed framed]
      simp only [word_toNat framed.spelled.value_lt,List.drop_left]
      rw [ih _ tail (by rw [advance]; omega)]

theorem decode_eq_split {maximum : UInt64} {buffer : Bytes} (small : buffer.length < 2 ^ 64) :
    decode maximum buffer =
      if (split maximum buffer).failure.isSome then { split maximum buffer with rest := buffer }
      else split maximum buffer := by
  have sized : buffer.length.toUInt64.toNat = (0 : UInt64).toNat + buffer.length := by
    rw [word_toNat small]
    simp
  rw [decode,decodeLoop_eq_splitLoop maximum _ _ _ _ sized,split]

theorem decode_eq_ok_iff {maximum : UInt64} {buffer rest : Bytes} {frames : List Bytes}
    (small : buffer.length < 2 ^ 64) :
    decode maximum buffer = ⟨frames,rest,none⟩ ↔ split maximum buffer = ⟨frames,rest,none⟩ := by
  rw [decode_eq_split small]
  cases failed : (split maximum buffer).failure with
  | none => simp
  | some failure =>
    constructor
    · intro equal
      simp [failed] at equal
    · intro equal
      simp [equal] at failed

theorem Framed.split_append {maximum : UInt64} {lead payload : Bytes}
    (framed : Framed maximum lead payload) (rest more : Bytes) :
    split maximum (lead ++ (payload ++ rest) ++ more) =
      { split maximum (rest ++ more) with
        frames := payload :: (split maximum (rest ++ more)).frames } := by
  rw [List.append_assoc,List.append_assoc,split_framed framed]

theorem Offends.append {maximum : UInt64} {stream : Bytes} {failure : Failure}
    (offends : Offends maximum stream failure) (more : Bytes) :
    Offends maximum (stream ++ more) failure := by
  rcases offends with ⟨⟨front,byte,rest,rfl,nine,high,big⟩,rfl⟩ | ⟨lead,rest,length,rfl,spelled,large,rfl⟩
  · exact .inl ⟨⟨front,byte,rest ++ more,by simp,nine,high,big⟩,rfl⟩
  · exact .inr ⟨lead,rest ++ more,length,by simp,spelled,large,rfl⟩

theorem split_append_of_failure {maximum : UInt64} {stream : Bytes} {failure : Failure}
    (failed : (split maximum stream).failure = some failure) (more : Bytes) :
    (split maximum (stream ++ more)).frames = (split maximum stream).frames ∧
      (split maximum (stream ++ more)).failure = some failure := by
  induction stream using stream_induction maximum with
  | incomplete stream incomplete => simp [split_incomplete incomplete] at failed
  | offends stream other offends =>
    rw [split_offends offends] at failed ⊢
    rw [split_offends (offends.append more)]
    exact ⟨rfl,failed⟩
  | framed lead payload rest framed ih =>
    rw [split_framed framed] at failed ⊢
    rw [framed.split_append]
    obtain ⟨frames,fails⟩ := ih failed
    exact ⟨by rw [frames],fails⟩

theorem sound_of_append {maximum : UInt64} {stream more : Bytes}
    (sound : (split maximum (stream ++ more)).failure = none) :
    (split maximum stream).failure = none := by
  cases failed : (split maximum stream).failure with
  | none => rfl
  | some failure =>
    rw [(split_append_of_failure failed more).2] at sound
    cases sound

/-- A stream may be split piece by piece: what a piece leaves goes in front of the next. -/
theorem split_append {maximum : UInt64} {stream : Bytes}
    (sound : (split maximum stream).failure = none) (more : Bytes) :
    split maximum (stream ++ more) =
      { split maximum ((split maximum stream).rest ++ more) with
        frames := (split maximum stream).frames ++
          (split maximum ((split maximum stream).rest ++ more)).frames } := by
  induction stream using stream_induction maximum with
  | incomplete stream incomplete => simp [split_incomplete incomplete]
  | offends stream failure offends => simp [split_offends offends] at sound
  | framed lead payload rest framed ih =>
    rw [split_framed framed] at sound ⊢
    rw [framed.split_append,ih sound]
    rfl

theorem incomplete_rest {maximum : UInt64} {stream : Bytes}
    (sound : (split maximum stream).failure = none) :
    Incomplete maximum (split maximum stream).rest := by
  induction stream using stream_induction maximum with
  | incomplete stream incomplete => rwa [split_incomplete incomplete]
  | offends stream failure offends => simp [split_offends offends] at sound
  | framed lead payload rest framed ih =>
    rw [split_framed framed] at sound ⊢
    exact ih sound

end SessionPipeline.Frame
