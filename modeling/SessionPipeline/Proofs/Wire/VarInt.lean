import Mathlib.Algebra.Group.Nat.Defs
import SessionPipeline.Wire.VarInt

/-! Which bytes spell which integer. A buffer either begins with the groups of one integer, or ends
inside one, or overflows 64 bits at its tenth byte; decoding tells the three apart and encoding
writes the shortest spelling. -/
namespace SessionPipeline.VarInt

/-- The bytes are the remaining groups of an integer that has `before` groups in front of them, and
`value` is what they add to it, counted from the first of them. -/
inductive Spells : Nat → Bytes → Nat → Prop
  | last {before : Nat} {byte : UInt8} (room : before < maxEncodedSize) (low : byte.toNat < 128)
      (fits : before = 9 → byte.toNat ≤ 1) : Spells before [byte] byte.toNat
  | more {before : Nat} {byte : UInt8} {rest : Bytes} {value : Nat} (room : before < 9)
      (high : 128 ≤ byte.toNat) (later : Spells (before + 1) rest value) :
      Spells before (byte :: rest) (byte.toNat - 128 + 128 * value)

/-- The bytes end inside an integer. -/
def Unfinished (before : Nat) (bytes : Bytes) : Prop :=
  before + bytes.length < maxEncodedSize ∧ ∀ byte ∈ bytes, 128 ≤ byte.toNat

/-- Nine groups go on and the tenth carries more than bit 63. -/
def Overflows (before : Nat) (bytes : Bytes) : Prop :=
  ∃ front byte rest, bytes = front ++ byte :: rest ∧ before + front.length = 9 ∧
    (∀ b ∈ front, 128 ≤ b.toNat) ∧ 1 < byte.toNat

/-- No shorter bytes spell the same integer. -/
def Shortest (bytes : Bytes) : Prop :=
  ∃ value, decode bytes 0 = .ok (some (bytes.length, value)) ∧
    ∀ other, decode other 0 = .ok (some (other.length, value)) → bytes.length ≤ other.length

namespace Spells

theorem length_pos {before value : Nat} {bytes : Bytes} (spelled : Spells before bytes value) :
    0 < bytes.length := by
  cases spelled <;> simp

theorem length_le {before value : Nat} {bytes : Bytes} (spelled : Spells before bytes value) :
    before + bytes.length ≤ maxEncodedSize := by
  induction spelled with
  | last room low fits => simp; omega
  | more room high later ih => simp only [List.length_cons]; omega

theorem value_lt {before value : Nat} {bytes : Bytes} (spelled : Spells before bytes value) :
    value < 2 ^ (64 - 7 * before) := by
  induction spelled with
  | @last before byte room low fits =>
    have cases : before = 9 ∨ before ≤ 8 := by simp only [maxEncodedSize] at room; omega
    rcases cases with rfl | small
    · have := fits rfl
      omega
    · calc byte.toNat < 2 ^ 7 := by omega
        _ ≤ 2 ^ (64 - 7 * before) := Nat.pow_le_pow_right (by omega) (by omega)
  | @more before byte rest value room high later ih =>
    have split : 2 ^ (64 - 7 * before) = 128 * 2 ^ (64 - 7 * (before + 1)) := by
      rw [show 64 - 7 * before = 7 + (64 - 7 * (before + 1)) by omega, Nat.pow_add]
    have := byte.toNat_lt
    omega

theorem value_lt_pow_length {before value : Nat} {bytes : Bytes}
    (spelled : Spells before bytes value) : value < 128 ^ bytes.length := by
  induction spelled with
  | last room low fits => simpa using low
  | @more before byte rest value room high later ih =>
    have := byte.toNat_lt
    rw [List.length_cons, Nat.pow_succ]
    omega

theorem unique {before value : Nat} {bytes other : Bytes} (spelled : Spells before bytes value)
    (again : Spells before other value) (long : bytes.length = other.length) : bytes = other := by
  induction spelled generalizing other with
  | @last before byte room low fits =>
    generalize named : byte.toNat = value at again
    cases again with
    | last => rw [UInt8.toNat_inj.mp named]
    | more room high later => simp at long; simp [long] at later; cases later
  | @more before byte rest value room high later ih =>
    generalize named : byte.toNat - 128 + 128 * value = total at again
    cases again with
    | last => simp at long; simp [long] at later; cases later
    | @more _ byte' rest' value' room' high' later' =>
      have := byte.toNat_lt
      have := byte'.toNat_lt
      have same : value = value' := by omega
      have head : byte = byte' := UInt8.toNat_inj.mp (by omega)
      subst same head
      rw [ih later' (by simpa using long)]

end Spells

/-- Every buffer is of exactly one of three kinds; here, of at least one. -/
theorem spells_or_unfinished_or_overflows (before : Nat) (bytes : Bytes)
    (room : before < maxEncodedSize) :
    (∃ front rest value, bytes = front ++ rest ∧ Spells before front value) ∨
      Unfinished before bytes ∨ Overflows before bytes := by
  induction bytes generalizing before with
  | nil => exact .inr (.inl ⟨by simpa using room, by simp⟩)
  | cons byte rest ih =>
    simp only [maxEncodedSize] at room
    by_cases overflow : before = 9 ∧ 1 < byte.toNat
    · exact .inr (.inr ⟨[], byte, rest, rfl, by simp [overflow.1], by simp, overflow.2⟩)
    by_cases low : byte.toNat < 128
    · exact .inl ⟨[byte], rest, byte.toNat, rfl, .last room low (by omega)⟩
    have inside : before < 9 := by omega
    rcases ih (before + 1) (by simp only [maxEncodedSize]; omega) with
      ⟨front, rest, value, rfl, spelled⟩ | ⟨short, high⟩ | ⟨front, last, rest, rfl, nine, high, big⟩
    · exact .inl ⟨byte :: front, rest, _, rfl, .more inside (by omega) spelled⟩
    · refine .inr (.inl ⟨by simp only [List.length_cons]; omega, ?_⟩)
      simpa using ⟨by omega, high⟩
    · refine .inr (.inr ⟨byte :: front, last, rest, rfl, by simp only [List.length_cons]; omega, ?_, big⟩)
      simpa using ⟨by omega, high⟩

theorem low_groups (byte : UInt8) : (byte &&& 0x7f).toNat = byte.toNat % 128 := by
  rw [UInt8.toNat_and]
  exact Nat.and_two_pow_sub_one_eq_mod byte.toNat 7

theorem high_bit_clear (byte : UInt8) : (byte &&& 0x80 == 0) = decide (byte.toNat < 128) := by
  have masked : ∀ n < 256, (n &&& 128 == 0) = decide (n < 128) := by decide +kernel
  have same : (byte &&& 0x80 == 0) = ((byte &&& 0x80).toNat == 0) := by
    rw [Bool.eq_iff_iff]
    simp [← UInt8.toNat_inj]
  rw [same,UInt8.toNat_and]
  exact masked byte.toNat byte.toNat_lt

theorem overflow_byte (before : Nat) (byte : UInt8) :
    (before + 1 == maxEncodedSize && byte > 0x01) = decide (before = 9 ∧ 1 < byte.toNat) := by
  rw [Bool.eq_iff_iff]
  simp [maxEncodedSize,UInt8.lt_iff_toNat_lt]

/-- Seven more bits come to stand above those already gathered. -/
theorem gathered_toNat {before : Nat} {result : UInt64} (byte : UInt8) (room : before < maxEncodedSize)
    (fits : before = 9 → byte.toNat ≤ 1) (small : result.toNat < 2 ^ (7 * before)) :
    (result ||| (byte &&& 0x7f).toUInt64 <<< (7 * before).toUInt64).toNat =
      result.toNat + 2 ^ (7 * before) * (byte.toNat % 128) := by
  simp only [maxEncodedSize] at room
  have shift : (7 * before).toUInt64.toNat = 7 * before := by
    simp only [Nat.toUInt64,UInt64.toNat_ofNat']
    omega
  have bounded : byte.toNat % 128 * 2 ^ (7 * before) < 2 ^ 64 := by
    have split : 2 ^ 64 = 2 ^ (64 - 7 * before) * 2 ^ (7 * before) := by
      rw [← Nat.pow_add,show 64 - 7 * before + 7 * before = 64 by omega]
    have group : byte.toNat % 128 < 2 ^ (64 - 7 * before) := by
      by_cases last : before = 9
      · subst last
        have := fits rfl
        omega
      · calc byte.toNat % 128 < 2 ^ 7 := by omega
          _ ≤ 2 ^ (64 - 7 * before) := Nat.pow_le_pow_right (by omega) (by omega)
    rw [split]
    exact Nat.mul_lt_mul_of_pos_right group (Nat.two_pow_pos _)
  rw [UInt64.toNat_or,UInt64.toNat_shiftLeft,UInt8.toNat_toUInt64,low_groups,shift,
    Nat.mod_eq_of_lt (by omega : 7 * before < 64),Nat.shiftLeft_eq,Nat.mod_eq_of_lt bounded,
    Nat.or_comm,Nat.mul_comm,← Nat.two_pow_add_eq_or_of_lt small,Nat.add_comm]

theorem next_shift (before : Nat) : (7 * before).toUInt64 + 7 = (7 * (before + 1)).toUInt64 := by
  simp only [Nat.toUInt64]
  rw [Nat.mul_add,UInt64.ofNat_add]
  rfl

theorem decodeFrom_cons (before : Nat) (result shift : UInt64) (byte : UInt8) (rest : Bytes) :
    decodeFrom before result shift (byte :: rest) =
      if before = 9 ∧ 1 < byte.toNat then .error (.decoding "varint overflows 64 bits")
      else if byte.toNat < 128 then
        .ok (some (before + 1,result ||| (byte &&& 0x7f).toUInt64 <<< shift))
      else decodeFrom (before + 1) (result ||| (byte &&& 0x7f).toUInt64 <<< shift) (shift + 7) rest := by
  rw [decodeFrom,overflow_byte,high_bit_clear]
  simp only [decide_eq_true_eq]

theorem decodeFrom_of_spells {before value : Nat} {result : UInt64} {bytes : Bytes}
    (spelled : Spells before bytes value) (small : result.toNat < 2 ^ (7 * before)) (rest : Bytes) :
    decodeFrom before result (7 * before).toUInt64 (bytes ++ rest) =
      .ok (some (before + bytes.length,(result.toNat + 2 ^ (7 * before) * value).toUInt64)) := by
  -- What is gathered so far stays below the weight of the next group.
  induction spelled generalizing result with
  | @last before byte room low fits =>
    have gathered := gathered_toNat byte room fits small
    rw [Nat.mod_eq_of_lt low] at gathered
    rw [List.singleton_append,decodeFrom_cons,if_neg (by omega),if_pos low,← gathered]
    simp only [List.length_singleton,Nat.toUInt64,UInt64.ofNat_toNat]
  | @more before byte rest' value room high later ih =>
    have gathered := gathered_toNat byte (Nat.lt_succ_of_lt room) (by omega) small
    have next : (result ||| (byte &&& 0x7f).toUInt64 <<< (7 * before).toUInt64).toNat <
        2 ^ (7 * (before + 1)) := by
      have := Nat.mul_le_mul_left (2 ^ (7 * before)) (by omega : byte.toNat % 128 ≤ 127)
      rw [gathered,Nat.mul_add,Nat.pow_add]
      omega
    rw [List.cons_append,decodeFrom_cons,if_neg (by omega),if_neg (by omega),next_shift,ih next,gathered]
    have group : byte.toNat % 128 = byte.toNat - 128 := by
      have := byte.toNat_lt
      omega
    have total : result.toNat + 2 ^ (7 * before) * (byte.toNat % 128) +
        2 ^ (7 * (before + 1)) * value =
        result.toNat + 2 ^ (7 * before) * (byte.toNat - 128 + 128 * value) := by
      rw [group,Nat.mul_add 7,Nat.pow_add,Nat.mul_add,Nat.mul_assoc,Nat.add_assoc]
    rw [total,List.length_cons,Nat.add_assoc,Nat.add_comm 1]

theorem decodeFrom_of_unfinished {before : Nat} {result shift : UInt64} {bytes : Bytes}
    (unfinished : Unfinished before bytes) : decodeFrom before result shift bytes = .ok none := by
  induction bytes generalizing before result shift with
  | nil => rfl
  | cons byte rest ih =>
    obtain ⟨short,high⟩ := unfinished
    have first := high byte (by simp)
    simp only [List.length_cons,maxEncodedSize] at short
    rw [decodeFrom_cons,if_neg (by omega),if_neg (by omega)]
    exact ih ⟨by simp only [maxEncodedSize]; omega,fun b member => high b (by simp [member])⟩

theorem decodeFrom_of_overflows {before : Nat} {result shift : UInt64} {bytes : Bytes}
    (overflows : Overflows before bytes) :
    decodeFrom before result shift bytes = .error (.decoding "varint overflows 64 bits") := by
  obtain ⟨front,byte,rest,rfl,nine,high,big⟩ := overflows
  induction front generalizing before result shift with
  | nil =>
    simp only [List.length_nil,Nat.add_zero] at nine
    rw [List.nil_append,decodeFrom_cons,if_pos ⟨nine,big⟩]
  | cons first front ih =>
    have := high first (by simp)
    simp only [List.length_cons] at nine
    rw [List.cons_append,decodeFrom_cons,if_neg (by omega),if_neg (by omega)]
    exact ih (by omega) fun b member => high b (by simp [member])

theorem decode_of_spells {bytes : Bytes} {value : Nat} (spelled : Spells 0 bytes value)
    (rest : Bytes) : decode (bytes ++ rest) 0 = .ok (some (bytes.length,value.toUInt64)) := by
  have whole := decodeFrom_of_spells spelled (show (0 : UInt64).toNat < 2 ^ (7 * 0) by decide) rest
  simpa [decode] using whole

theorem decode_eq_some_iff {bytes : Bytes} {consumed : Nat} {value : UInt64} :
    decode bytes 0 = .ok (some (consumed,value)) ↔
      ∃ front rest, bytes = front ++ rest ∧ front.length = consumed ∧ Spells 0 front value.toNat := by
  constructor
  · intro decoded
    rcases spells_or_unfinished_or_overflows 0 bytes (by decide) with
      ⟨front,rest,n,rfl,spelled⟩ | unfinished | overflows
    · rw [decode_of_spells spelled rest] at decoded
      simp only [Except.ok.injEq,Option.some.injEq,Prod.mk.injEq] at decoded
      have small := spelled.value_lt
      have same : value.toNat = n := by
        rw [← decoded.2]
        simp only [Nat.toUInt64,UInt64.toNat_ofNat']
        omega
      exact ⟨front,rest,rfl,decoded.1,same ▸ spelled⟩
    · simp [decode,decodeFrom_of_unfinished unfinished] at decoded
    · simp [decode,decodeFrom_of_overflows overflows] at decoded
  · rintro ⟨front,rest,rfl,rfl,spelled⟩
    rw [decode_of_spells spelled rest]
    simp [Nat.toUInt64]

theorem decode_eq_none_iff {bytes : Bytes} : decode bytes 0 = .ok none ↔ Unfinished 0 bytes := by
  constructor
  · intro decoded
    rcases spells_or_unfinished_or_overflows 0 bytes (by decide) with
      ⟨front,rest,n,rfl,spelled⟩ | unfinished | overflows
    · simp [decode_of_spells spelled rest] at decoded
    · exact unfinished
    · simp [decode,decodeFrom_of_overflows overflows] at decoded
  · exact decodeFrom_of_unfinished

theorem decode_eq_error_iff {bytes : Bytes} {failure : Failure} :
    decode bytes 0 = .error failure ↔
      Overflows 0 bytes ∧ failure = .decoding "varint overflows 64 bits" := by
  constructor
  · intro decoded
    rcases spells_or_unfinished_or_overflows 0 bytes (by decide) with
      ⟨front,rest,n,rfl,spelled⟩ | unfinished | overflows
    · simp [decode_of_spells spelled rest] at decoded
    · simp [decode,decodeFrom_of_unfinished unfinished] at decoded
    · simp only [decode,List.drop_zero,decodeFrom_of_overflows overflows,Except.error.injEq] at decoded
      exact ⟨overflows,decoded.symm⟩
  · rintro ⟨overflows,rfl⟩
    exact decodeFrom_of_overflows overflows

theorem Spells.unfinished {before value : Nat} {front rest : Bytes}
    (spelled : Spells before (front ++ rest) value) (cut : rest ≠ []) : Unfinished before front := by
  induction front generalizing before value with
  | nil =>
    have room : before < maxEncodedSize := by
      have := spelled.length_le
      have := spelled.length_pos
      omega
    exact ⟨by simpa using room,by simp⟩
  | cons byte front ih =>
    rw [List.cons_append] at spelled
    generalize shape : front ++ rest = later at spelled
    cases spelled with
    | last => simp [cut] at shape
    | more room high tail =>
      obtain ⟨short,all⟩ := ih (shape ▸ tail)
      refine ⟨by simp only [List.length_cons]; omega,?_⟩
      simpa using ⟨high,all⟩

theorem continued_toNat (value : UInt64) : (value.toUInt8 ||| 0x80).toNat = value.toNat % 128 + 128 := by
  have marked : ∀ n < 256, n ||| 128 = n % 128 + 128 := by decide +kernel
  rw [UInt8.toNat_or,UInt64.toNat_toUInt8]
  have := marked (value.toNat % 2 ^ 8) (by omega)
  rw [show (0x80 : UInt8).toNat = 128 from rfl,this]
  omega

theorem shifted_toNat (value : UInt64) : (value >>> 7).toNat = value.toNat / 128 := by
  rw [UInt64.toNat_shiftRight]
  simp [Nat.shiftRight_eq_div_pow]

theorem spells_encodeGroups {before more : Nat} {value : UInt64} (groups : before + more = 9)
    (small : value.toNat < 2 ^ (64 - 7 * before)) :
    Spells before (encodeGroups more value) value.toNat := by
  have low (fits : value.toNat < 128) : value.toUInt8.toNat = value.toNat := by
    rw [UInt64.toNat_toUInt8]
    omega
  induction more generalizing before value with
  | zero =>
    have nine : before = 9 := by omega
    subst nine
    have spelled : Spells 9 [value.toUInt8] value.toUInt8.toNat :=
      .last (by decide) (by rw [low] <;> omega) (by rw [low] <;> omega)
    rwa [low (by omega)] at spelled
  | succ more ih =>
    rw [encodeGroups]
    split
    · rename_i fits
      have fits : value.toNat < 128 := by simpa [UInt64.lt_iff_toNat_lt] using fits
      have spelled : Spells before [value.toUInt8] value.toUInt8.toNat :=
        .last (by simp only [maxEncodedSize]; omega) (by rwa [low fits]) (by omega)
      rwa [low fits] at spelled
    · rename_i large
      have large : 128 ≤ value.toNat := by simpa [UInt64.lt_iff_toNat_lt] using large
      have split : 2 ^ (64 - 7 * before) = 2 ^ (64 - 7 * (before + 1)) * 128 := by
        rw [show 64 - 7 * before = 64 - 7 * (before + 1) + 7 by omega,Nat.pow_add]
      have later : Spells (before + 1) (encodeGroups more (value >>> 7)) (value >>> 7).toNat := by
        refine ih (by omega) ?_ fun fits => ?_
        · rw [shifted_toNat]
          omega
        · rw [UInt64.toNat_toUInt8]
          omega
      have high : 128 ≤ (value.toUInt8 ||| 0x80).toNat := by
        rw [continued_toNat]
        omega
      have spelled := Spells.more (by omega) high later
      rw [continued_toNat,shifted_toNat] at spelled
      rwa [show value.toNat % 128 + 128 - 128 + 128 * (value.toNat / 128) = value.toNat by omega]
        at spelled

theorem spells_encode (value : UInt64) : Spells 0 (encode value) value.toNat :=
  spells_encodeGroups (by rfl) value.toNat_lt

theorem pow_le_of_length_encodeGroups {more count : Nat} {value : UInt64}
    (long : (encodeGroups more value).length = count + 2) : 128 ^ (count + 1) ≤ value.toNat := by
  induction more generalizing value count with
  | zero => simp [encodeGroups] at long
  | succ more ih =>
    rw [encodeGroups] at long
    split at long
    · simp at long
    · rename_i large
      have large : 128 ≤ value.toNat := by simpa [UInt64.lt_iff_toNat_lt] using large
      cases count with
      | zero => simpa using large
      | succ count =>
        have rest : (encodeGroups more (value >>> 7)).length = count + 2 := by simpa using long
        have := ih rest
        rw [shifted_toNat] at this
        rw [Nat.pow_succ]
        omega

theorem length_encode_le {bytes : Bytes} {value : UInt64} (spelled : Spells 0 bytes value.toNat) :
    (encode value).length ≤ bytes.length := by
  refine Nat.le_of_not_lt fun longer => ?_
  have positive := spelled.length_pos
  obtain ⟨count,long⟩ : ∃ count, (encode value).length = count + 2 :=
    ⟨(encode value).length - 2,by omega⟩
  have lower := pow_le_of_length_encodeGroups long
  have upper := spelled.value_lt_pow_length
  have := Nat.pow_le_pow_right (show 0 < 128 by omega) (show bytes.length ≤ count + 1 by omega)
  omega

/-- The encoding of a value is its one shortest spelling. -/
theorem shortest_iff {bytes : Bytes} {value : UInt64} (spelled : Spells 0 bytes value.toNat) :
    Shortest bytes ↔ bytes = encode value := by
  have whole {other : Bytes} {v : UInt64} (s : Spells 0 other v.toNat) :
      decode other 0 = .ok (some (other.length,v)) :=
    decode_eq_some_iff.mpr ⟨other,[],by simp,rfl,s⟩
  constructor
  · rintro ⟨v,decoded,least⟩
    rw [whole spelled] at decoded
    simp only [Except.ok.injEq,Option.some.injEq,Prod.mk.injEq,true_and] at decoded
    subst decoded
    exact spelled.unique (spells_encode value)
      (Nat.le_antisymm (least _ (whole (spells_encode value))) (length_encode_le spelled))
  · rintro rfl
    refine ⟨value,whole spelled,fun other decoded => ?_⟩
    obtain ⟨front,rest,rfl,long,s⟩ := decode_eq_some_iff.mp decoded
    have := length_encode_le s
    rw [List.length_append]
    omega

end SessionPipeline.VarInt
