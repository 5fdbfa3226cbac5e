import SessionPipeline.Proofs.Wire.Frame

/-! What one decoding of a buffer does, look by look. The loop goes from frame to frame in word arithmetic;
no look leaves the buffer, and what has been read at the end is the longest run of complete frames at the
front of the buffer. -/
namespace SessionPipeline.Frame

/-- The bytes are these complete frames, one behind the other. -/
inductive Frames (maximum : UInt64) : Bytes → List Bytes → Prop
  | nil : Frames maximum [] []
  | cons {lead payload run : Bytes} {frames : List Bytes} (framed : Framed maximum lead payload)
      (later : Frames maximum run frames) :
      Frames maximum (lead ++ (payload ++ run)) (payload :: frames)

/-- Every run of complete frames at the front of the buffer is a part of this one. -/
structure LongestRun (maximum : UInt64) (buffer run : Bytes) (frames : List Bytes) : Prop where
  complete : Frames maximum run frames
  front : run <+: buffer
  longest : ∀ other more, Frames maximum other more → other <+: buffer → other <+: run ∧ more <+: frames

/-- One look at a place in the buffer. -/
def lookAt (maximum : UInt64) (buffer : Bytes) (place : UInt64) : Head :=
  head maximum buffer.length.toUInt64 place (buffer.drop place.toNat)

/-- The loop without a bound: at which places of the buffer it looks, and what it comes to. -/
inductive Course (maximum : UInt64) (buffer : Bytes) : UInt64 → List UInt64 → Decoded → Prop
  | waits {place : UInt64} (short : lookAt maximum buffer place = .incomplete) :
      Course maximum buffer place [place] ⟨[],buffer.drop place.toNat,none⟩
  | refuses {place : UInt64} {failure : Failure} (bad : lookAt maximum buffer place = .failed failure) :
      Course maximum buffer place [place] ⟨[],buffer.drop place.toNat,some failure⟩
  | takes {place length : UInt64} {consumed : Nat} {places : List UInt64} {decoded : Decoded}
      (found : lookAt maximum buffer place = .frame consumed length)
      (later : Course maximum buffer (place + (consumed.toUInt64 + length)) places decoded) :
      Course maximum buffer place (place :: places)
        { decoded with frames := (buffer.drop (place.toNat + consumed)).take length.toNat :: decoded.frames }

/-- Nothing is lost in the words of a look, and a frame is taken only if it ends inside the buffer. -/
structure Inside (maximum : UInt64) (buffer : Bytes) (place : UInt64) : Prop where
  fits : place.toNat ≤ buffer.length
  room : ∀ consumed length, VarInt.decode buffer place.toNat = .ok (some (consumed,length)) →
    0 < consumed ∧ place.toNat + consumed ≤ buffer.length ∧
      (buffer.length.toUInt64 - place - consumed.toUInt64).toNat =
        buffer.length - (place.toNat + consumed)
  taken : ∀ consumed length, lookAt maximum buffer place = .frame consumed length ↔
    VarInt.decode buffer place.toNat = .ok (some (consumed,length)) ∧ length ≤ maximum ∧
      place.toNat + consumed + length.toNat ≤ buffer.length
  advance : ∀ consumed length, lookAt maximum buffer place = .frame consumed length →
    (place + (consumed.toUInt64 + length)).toNat = place.toNat + consumed + length.toNat

theorem head_eq_frame_iff {maximum size position : UInt64} {rest : Bytes}
    (sized : size.toNat = position.toNat + rest.length) {consumed : Nat} {length : UInt64} :
    head maximum size position rest = .frame consumed length ↔
      ∃ lead payload tail, rest = lead ++ (payload ++ tail) ∧ Framed maximum lead payload ∧
        lead.length = consumed ∧ payload.length.toUInt64 = length := by
  rw [head_eq_look sized]
  constructor
  · intro found
    rcases front_cases maximum rest with incomplete | ⟨failure,offends⟩ |
      ⟨lead,payload,tail,rfl,framed⟩
    · rw [look_eq_incomplete incomplete] at found
      cases found
    · rw [look_eq_failed offends] at found
      cases found
    · rw [look_framed framed,Head.frame.injEq] at found
      exact ⟨lead,payload,tail,rfl,framed,found.1,found.2⟩
  · rintro ⟨lead,payload,tail,rfl,framed,rfl,rfl⟩
    exact look_framed framed tail

section Places

variable {maximum : UInt64} {buffer : Bytes} (addressable : buffer.length < 2^64)
include addressable

theorem inside_of_le {place : UInt64} (fits : place.toNat ≤ buffer.length) :
    Inside maximum buffer place := by
  have sized : buffer.length.toUInt64.toNat = place.toNat + (buffer.drop place.toNat).length := by
    rw [word_toNat addressable,List.length_drop]
    omega
  have whole := word_toNat addressable
  have offset : VarInt.decode buffer place.toNat = VarInt.decode (buffer.drop place.toNat) 0 := by
    simp [VarInt.decode]
  refine ⟨fits,?_,?_,?_⟩
  · intro consumed length read
    rw [offset] at read
    obtain ⟨front,tail,split,rfl,spelled⟩ := VarInt.decode_eq_some_iff.mp read
    have positive := spelled.length_pos
    rw [split] at sized
    have left := room_toNat sized
    rw [List.length_append] at sized
    omega
  · intro consumed length
    rw [lookAt,head_eq_frame_iff sized,offset,VarInt.decode_eq_some_iff]
    constructor
    · rintro ⟨lead,payload,tail,split,framed,rfl,rfl⟩
      have value := word_toNat framed.spelled.value_lt
      rw [split] at sized
      simp only [List.length_append] at sized
      refine ⟨⟨lead,payload ++ tail,split,rfl,value.symm ▸ framed.spelled⟩,?_,by omega⟩
      exact UInt64.le_iff_toNat_le.mpr (value.symm ▸ framed.allowed)
    · rintro ⟨⟨lead,tail,split,rfl,spelled⟩,allowed,ends⟩
      rw [split,List.length_append] at sized
      have long : (tail.take length.toNat).length = length.toNat := by
        rw [List.length_take]
        omega
      refine ⟨lead,tail.take length.toNat,tail.drop length.toNat,?_,⟨long.symm ▸ spelled,?_⟩,rfl,?_⟩
      · rw [List.take_append_drop,split]
      · exact long.symm ▸ UInt64.le_iff_toNat_le.mp allowed
      · rw [long]
        exact UInt64.ofNat_toNat
  · intro consumed length found
    obtain ⟨lead,payload,tail,split,framed,rfl,rfl⟩ := (head_eq_frame_iff sized).mp found
    rw [split] at sized
    rw [advance_toNat sized,word_toNat framed.spelled.value_lt,Nat.add_assoc]

/-- A loop that is given as much fuel as there are bytes left runs its course. -/
theorem decodeLoop_course (fuel : Nat) (place : UInt64) (fits : place.toNat ≤ buffer.length)
    (enough : buffer.length ≤ place.toNat + fuel) :
    ∃ places, Course maximum buffer place places
      (decodeLoop maximum buffer.length.toUInt64 fuel place (buffer.drop place.toNat)) := by
  induction fuel generalizing place with
  | zero =>
    have none : buffer.drop place.toNat = [] := List.drop_eq_nil_of_le enough
    refine ⟨_,.waits ?_⟩
    rw [lookAt,none]
    rfl
  | succ fuel ih =>
    cases seen : lookAt maximum buffer place with
    | incomplete =>
      rw [lookAt] at seen
      rw [decodeLoop,seen]
      exact ⟨_,.waits seen⟩
    | failed failure =>
      rw [lookAt] at seen
      rw [decodeLoop,seen]
      exact ⟨_,.refuses seen⟩
    | frame consumed length =>
      have inside : Inside maximum buffer place := inside_of_le addressable fits
      have moved := inside.advance consumed length seen
      obtain ⟨read,-,ends⟩ := (inside.taken consumed length).mp seen
      have positive := (inside.room consumed length read).1
      obtain ⟨places,later⟩ := ih (place + (consumed.toUInt64 + length)) (by omega) (by omega)
      have course := Course.takes seen later
      rw [moved] at course
      rw [lookAt] at seen
      rw [decodeLoop,seen]
      simp only [List.drop_drop]
      exact ⟨_,course⟩

theorem Course.inside {place : UInt64} {places : List UInt64} {decoded : Decoded}
    (course : Course maximum buffer place places decoded) (fits : place.toNat ≤ buffer.length) :
    ∀ place ∈ places, Inside maximum buffer place := by
  have inside : Inside maximum buffer place := inside_of_le addressable fits
  induction course with
  | waits short => simpa using inside
  | refuses bad => simpa using inside
  | @takes place length consumed places decoded found later ih =>
    have ends := ((inside.taken consumed length).mp found).2.2
    rw [← inside.advance consumed length found] at ends
    exact List.forall_mem_cons.mpr ⟨inside,ih ends (inside_of_le addressable ends)⟩

end Places

/-- Decoding reads a run of complete frames and stops at what is none. -/
theorem split_frames (maximum : UInt64) (stream : Bytes) :
    ∃ run tail, stream = run ++ tail ∧ Frames maximum run (split maximum stream).frames ∧
      (Incomplete maximum tail ∧ (split maximum stream).rest = tail ∧
          (split maximum stream).failure = none ∨
        ∃ failure, Offends maximum tail failure ∧ (split maximum stream).failure = some failure) := by
  induction stream using stream_induction maximum with
  | incomplete stream incomplete =>
    rw [split_incomplete incomplete]
    exact ⟨[],stream,rfl,.nil,.inl ⟨incomplete,rfl,rfl⟩⟩
  | offends stream failure offends =>
    rw [split_offends offends]
    exact ⟨[],stream,rfl,.nil,.inr ⟨failure,offends,rfl⟩⟩
  | framed lead payload rest framed ih =>
    obtain ⟨run,tail,rfl,complete,stops⟩ := ih
    rw [split_framed framed]
    exact ⟨lead ++ (payload ++ run),tail,by simp,.cons framed complete,stops⟩

theorem Framed.unique {maximum : UInt64} {lead payload rest lead' payload' rest' : Bytes}
    (framed : Framed maximum lead payload) (framed' : Framed maximum lead' payload')
    (same : lead ++ (payload ++ rest) = lead' ++ (payload' ++ rest')) :
    lead = lead' ∧ payload = payload' ∧ rest = rest' := by
  have seen := look_framed framed rest
  rw [same,look_framed framed',Head.frame.injEq] at seen
  have length := congrArg UInt64.toNat seen.2
  rw [word_toNat framed.spelled.value_lt,word_toNat framed'.spelled.value_lt] at length
  obtain ⟨leads,behind⟩ := List.append_inj same seen.1.symm
  exact ⟨leads,List.append_inj behind length.symm⟩

/-- No frame stands at the front of the stream. -/
def Unframed (maximum : UInt64) (stream : Bytes) : Prop :=
  ∀ lead payload rest, stream = lead ++ (payload ++ rest) → ¬ Framed maximum lead payload

theorem Incomplete.unframed {maximum : UInt64} {stream : Bytes}
    (incomplete : Incomplete maximum stream) : Unframed maximum stream := by
  rintro lead payload rest rfl framed
  have stuck := look_eq_incomplete incomplete
  rw [look_framed framed] at stuck
  cases stuck

theorem Offends.unframed {maximum : UInt64} {stream : Bytes} {failure : Failure}
    (offends : Offends maximum stream failure) : Unframed maximum stream := by
  rintro lead payload rest rfl framed
  have bad := look_eq_failed offends
  rw [look_framed framed] at bad
  cases bad

theorem Frames.longest {maximum : UInt64} {run tail : Bytes} {frames : List Bytes}
    (complete : Frames maximum run frames) (stops : Unframed maximum tail) :
    LongestRun maximum (run ++ tail) run frames := by
  refine ⟨complete,List.prefix_append run tail,fun other more others => ?_⟩
  induction others generalizing run frames with
  | nil => exact fun _ => ⟨List.nil_prefix,List.nil_prefix⟩
  | @cons lead payload other more framed later ih =>
    rintro ⟨behind,front⟩
    cases complete with
    | nil => exact absurd framed (stops lead payload (other ++ behind) (by simpa using front.symm))
    | @cons lead' payload' run frames framed' complete =>
      have same : lead ++ (payload ++ (other ++ behind)) = lead' ++ (payload' ++ (run ++ tail)) := by
        simpa using front
      obtain ⟨rfl,rfl,rest⟩ := framed.unique framed' same
      obtain ⟨runs,frames⟩ := ih complete ⟨behind,rest⟩
      refine ⟨?_,List.cons_prefix_cons.mpr ⟨rfl,frames⟩⟩
      exact (List.prefix_append_right_inj _).mpr ((List.prefix_append_right_inj _).mpr runs)

theorem LongestRun.unique {maximum : UInt64} {buffer run run' : Bytes} {frames frames' : List Bytes}
    (longest : LongestRun maximum buffer run frames) (longest' : LongestRun maximum buffer run' frames') :
    run = run' ∧ frames = frames' := by
  obtain ⟨runs,all⟩ := longest.longest run' frames' longest'.complete longest'.front
  obtain ⟨runs',all'⟩ := longest'.longest run frames longest.complete longest.front
  exact ⟨runs'.eq_of_length (Nat.le_antisymm runs'.length_le runs.length_le),
    all'.eq_of_length (Nat.le_antisymm all'.length_le all.length_le)⟩

theorem decode_longest (maximum : UInt64) {buffer : Bytes} (addressable : buffer.length < 2^64) :
    ∃ run tail frames, buffer = run ++ tail ∧ LongestRun maximum buffer run frames ∧
      (Incomplete maximum tail ∧ decode maximum buffer = ⟨frames,tail,none⟩ ∨
        ∃ failure, Offends maximum tail failure ∧
          decode maximum buffer = ⟨frames,buffer,some failure⟩) := by
  obtain ⟨run,tail,whole,complete,stops⟩ := split_frames maximum buffer
  rcases stops with ⟨incomplete,left,sound⟩ | ⟨failure,offends,failed⟩
  · have longest := complete.longest incomplete.unframed
    rw [← whole] at longest
    refine ⟨run,tail,_,whole,longest,.inl ⟨incomplete,?_⟩⟩
    rw [decode_eq_split addressable,if_neg (by rw [sound]; simp),← left,← sound]
  · have longest := complete.longest offends.unframed
    rw [← whole] at longest
    refine ⟨run,tail,_,whole,longest,.inr ⟨failure,offends,?_⟩⟩
    rw [decode_eq_split addressable,if_pos (by rw [failed]; rfl),← failed]

/-- Decoding a buffer comes to an end without leaving it. It takes the longest run of complete frames off
its front, or fails where such a run meets a length that is none or not allowed, and then takes nothing. -/
theorem decode_reads (maximum : UInt64) {buffer : Bytes} (addressable : buffer.length < 2^64) :
    (∃ places, Course maximum buffer 0 places
        (decodeLoop maximum buffer.length.toUInt64 buffer.length 0 buffer) ∧
      (∀ fuel, buffer.length ≤ fuel → decodeLoop maximum buffer.length.toUInt64 fuel 0 buffer =
        decodeLoop maximum buffer.length.toUInt64 buffer.length 0 buffer) ∧
      ∀ place ∈ places, Inside maximum buffer place) ∧
    (∀ frames rest, decode maximum buffer = ⟨frames,rest,none⟩ ↔
      ∃ run, buffer = run ++ rest ∧ LongestRun maximum buffer run frames ∧ Incomplete maximum rest) ∧
    ∀ frames rest failure, decode maximum buffer = ⟨frames,rest,some failure⟩ ↔
      rest = buffer ∧ ∃ run tail, buffer = run ++ tail ∧ LongestRun maximum buffer run frames ∧
        Offends maximum tail failure := by
  have sized : buffer.length.toUInt64.toNat = (0 : UInt64).toNat + buffer.length := by
    rw [word_toNat addressable]
    simp
  have front : (0 : UInt64).toNat ≤ buffer.length := Nat.zero_le _
  have ⟨places,(course : Course maximum buffer 0 places _)⟩ :=
    decodeLoop_course addressable buffer.length 0 front (Nat.le_add_left _ _)
  obtain ⟨run,tail,known,whole,longest,stops⟩ := decode_longest maximum addressable
  refine ⟨⟨places,course,fun fuel enough => ?_,course.inside addressable front⟩,
    fun frames rest => ⟨fun decoded => ?_,?_⟩,fun frames rest failure => ⟨fun decoded => ?_,?_⟩⟩
  · rw [decodeLoop_eq_splitLoop _ _ _ _ _ sized,decodeLoop_eq_splitLoop _ _ _ _ _ sized,
      splitLoop_eq_split _ _ _ enough,splitLoop_eq_split _ _ _ (Nat.le_refl _)]
  · rcases stops with ⟨incomplete,read⟩ | ⟨failure,-,read⟩
    · cases read.symm.trans decoded
      exact ⟨run,whole,longest,incomplete⟩
    · cases read.symm.trans decoded
  · rintro ⟨other,split,longer,incomplete⟩
    obtain ⟨rfl,rfl⟩ := longest.unique longer
    obtain rfl := List.append_cancel_left (whole.symm.trans split)
    rcases stops with ⟨-,read⟩ | ⟨failure,offends,-⟩
    · exact read
    · cases (look_eq_incomplete incomplete).symm.trans (look_eq_failed offends)
  · rcases stops with ⟨-,read⟩ | ⟨failure,offends,read⟩
    · cases read.symm.trans decoded
    · cases read.symm.trans decoded
      exact ⟨rfl,run,tail,whole,longest,offends⟩
  · rintro ⟨rfl,other,behind,split,longer,offends⟩
    obtain ⟨rfl,rfl⟩ := longest.unique longer
    obtain rfl := List.append_cancel_left (whole.symm.trans split)
    rcases stops with ⟨incomplete,-⟩ | ⟨found,same,read⟩
    · cases (look_eq_incomplete incomplete).symm.trans (look_eq_failed offends)
    · cases (look_eq_failed same).symm.trans (look_eq_failed offends)
      exact read

/-- The widest length is waited for where every length is allowed, and refused where it is not. -/
theorem decode_reads_widest :
    let widest : Bytes := List.replicate 9 0xFF ++ [0x01,0x62]
    let buffer : Bytes := [0x01,0x61] ++ widest
    buffer.length < 2 ^ 64 ∧
      (∃ run, buffer = run ++ widest ∧ LongestRun 0xFFFFFFFFFFFFFFFF buffer run [[0x61]] ∧
        Incomplete 0xFFFFFFFFFFFFFFFF widest) ∧
      ∃ run tail, buffer = run ++ tail ∧ LongestRun 1 buffer run [[0x61]] ∧
        Offends 1 tail (oversized 1 0xFFFFFFFFFFFFFFFF) := by
  intro widest buffer
  have short : buffer.length < 2 ^ 64 := by decide
  obtain ⟨-,waits,-⟩ := decode_reads 0xFFFFFFFFFFFFFFFF short
  obtain ⟨-,-,refuses⟩ := decode_reads 1 short
  exact ⟨short,(waits _ _).mp (by decide +kernel),((refuses _ buffer _).mp (by decide +kernel)).2⟩

end SessionPipeline.Frame
