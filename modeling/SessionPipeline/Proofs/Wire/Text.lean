import Mathlib.Data.List.Basic
import Mathlib.Data.String.Basic
import SessionPipeline.Wire.Bytes

/-! The UTF-8 bytes of strings, and of those that are ASCII. -/
namespace SessionPipeline.Bytes

@[simp] theorem ofString_append (s t : String) : ofString (s ++ t) = ofString s ++ ofString t := by
  simp [ofString,String.toUTF8_eq_toByteArray,String.toByteArray_append]

theorem ofString_injective : Function.Injective ofString := by
  intro s t same
  rw [ofString,ofString,String.toUTF8_eq_toByteArray,String.toUTF8_eq_toByteArray] at same
  exact String.toByteArray_inj.mp (ByteArray.ext (Array.toList_inj.mp same))

theorem ofString_ofList (cs : List Char) :
    ofString (String.ofList cs) = cs.flatMap String.utf8EncodeChar := by
  simp [ofString,String.toUTF8_eq_toByteArray,String.toByteArray_ofList,List.utf8Encode]

/-- ASCII text is written one byte for each character. -/
theorem ofString_ascii {cs : List Char} (ascii : ∀ c ∈ cs, c.toNat < 0x80) :
    ofString (String.ofList cs) = cs.map Char.toUInt8 := by
  rw [ofString_ofList]
  induction cs with
  | nil => rfl
  | cons c cs ih =>
    obtain ⟨first,others⟩ := List.forall_mem_cons.mp ascii
    have single : c.utf8Size = 1 := Char.utf8Size_eq_one_iff.mpr (by
      rw [UInt32.le_iff_toNat_le]
      exact Nat.le_of_lt_succ first)
    rw [List.flatMap_cons,List.map_cons,ih others,String.utf8EncodeChar_eq_singleton single]
    rfl

/-- The digits of a number, each as its byte. -/
theorem ofString_nat (n : Nat) : ofString (toString n) = (Nat.toDigits 10 n).map Char.toUInt8 := by
  show ofString n.repr = _
  rw [Nat.repr_eq_ofList_toDigits]
  refine ofString_ascii fun c digit => ?_
  have := Char.isDigit_iff_toNat.mp (Nat.isDigit_of_mem_toDigits (by decide) (by decide) digit)
  exact Nat.lt_of_le_of_lt this.2 (by decide)

theorem ofString_int (n : Int) :
    ofString (toString n) = (if 0 ≤ n then [] else [0x2d]) ++ ofString (toString n.natAbs) := by
  cases n with
  | ofNat n => rfl
  | negSucc n =>
    rw [if_neg (by omega)]
    exact ofString_append "-" _

/-- One character for each byte. -/
def characters (b : Bytes) : List Char := b.map Char.ofUInt8

def latin1 (b : Bytes) : String := String.ofList b.characters

@[simp] theorem characters_cons (first : UInt8) (rest : Bytes) :
    characters (first :: rest) = Char.ofUInt8 first :: characters rest := rfl

@[simp] theorem length_characters (b : Bytes) : b.characters.length = b.length := List.length_map _

@[simp] theorem toNat_ofUInt8 (b : UInt8) : (Char.ofUInt8 b).toNat = b.toNat := rfl

theorem toUInt8_ofUInt8 (b : UInt8) : (Char.ofUInt8 b).toUInt8 = b := by
  apply UInt8.toNat_inj.mp
  exact Nat.mod_eq_of_lt b.toNat_lt

theorem ofUInt8_injective : Function.Injective Char.ofUInt8 := fun a b same => by
  rw [← toUInt8_ofUInt8 a,same,toUInt8_ofUInt8]

theorem ofUInt8_toUInt8 {c : Char} (ascii : c.toNat < 0x80) : Char.ofUInt8 c.toUInt8 = c := by
  apply Char.toNat_inj.mp
  exact Nat.mod_eq_of_lt (Nat.lt_trans ascii (by decide))

theorem latin1_injective : Function.Injective latin1 := fun _ _ same =>
  List.map_injective_iff.mpr ofUInt8_injective (String.ofList_injective same)

/-- ASCII bytes are the text that has them as its characters. -/
theorem ofString_latin1 {b : Bytes} (ascii : ∀ c ∈ b, c < 0x80) : ofString b.latin1 = b := by
  rw [latin1,ofString_ascii]
  · rw [characters,List.map_map]
    exact List.map_id'' toUInt8_ofUInt8 b
  · intro c mem
    obtain ⟨d,here,rfl⟩ := List.mem_map.mp mem
    exact UInt8.lt_iff_toNat_lt.mp (ascii d here)

def Ascii (s : String) : Prop := ∀ c ∈ s.toList, c.toNat < 0x80

instance (s : String) : Decidable (Ascii s) := List.decidableBAll _ s.toList

/-- Every character takes a byte at least, so only where each takes one are there as many bytes. -/
theorem length_utf8_le (cs : List Char) : cs.length ≤ (cs.flatMap String.utf8EncodeChar).length := by
  induction cs with
  | nil => exact Nat.le_refl 0
  | cons c cs ih =>
    have := c.utf8Size_pos
    rw [List.flatMap_cons,List.length_append,String.length_utf8EncodeChar,List.length_cons]
    omega

theorem ascii_of_length {cs : List Char} (same : (cs.flatMap String.utf8EncodeChar).length = cs.length) :
    ∀ c ∈ cs, c.toNat < 0x80 := by
  induction cs with
  | nil => exact fun c mem => absurd mem List.not_mem_nil
  | cons c cs ih =>
    have := c.utf8Size_pos
    have := length_utf8_le cs
    rw [List.flatMap_cons,List.length_append,String.length_utf8EncodeChar,List.length_cons] at same
    refine List.forall_mem_cons.mpr ⟨?_,ih (by omega)⟩
    have single : c.utf8Size = 1 := by omega
    exact Nat.lt_succ_of_le (UInt32.le_iff_toNat_le.mp (Char.utf8Size_eq_one_iff.mp single))

/-- Read one character for each byte, a text comes back if it is ASCII, and not otherwise. -/
theorem latin1_ofString {s : String} : (ofString s).latin1 = s ↔ Ascii s := by
  have spelled : ofString s = s.toList.flatMap String.utf8EncodeChar := by
    rw [← ofString_ofList,String.ofList_toList]
  constructor
  · intro same
    refine ascii_of_length ?_
    rw [← spelled,← length_characters,← String.toList_ofList (l := (ofString s).characters)]
    exact congrArg (fun t : String => t.toList.length) same
  · intro ascii
    have := ofString_ascii ascii
    rw [String.ofList_toList] at this
    rw [this,latin1,characters,List.map_map]
    have each : s.toList.map (Char.ofUInt8 ∘ Char.toUInt8) = s.toList.map id :=
      List.map_congr_left fun c mem => ofUInt8_toUInt8 (ascii c mem)
    rw [each,List.map_id,String.ofList_toList]

end SessionPipeline.Bytes
