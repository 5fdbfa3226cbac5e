import SessionPipeline.Proofs.Wire.VarInt

/-! Encoded integers. The loops that write a value and count its bytes come to an end within ten passes,
whatever the value; what is written is read back wherever it stands, no other bytes that are read as the
value are as short, and the encoding of one value never begins that of another. -/
namespace SessionPipeline.VarInt

/-- The loop of encoding over bytes put out before, without a bound on its passes. -/
inductive Puts : Bytes → UInt64 → Bytes → Prop
  | last {out : Bytes} {value : UInt64} (fits : value < 0x80) : Puts out value (out ++ [value.toUInt8])
  | more {out result : Bytes} {value : UInt64} (large : ¬ value < 0x80)
      (later : Puts (out ++ [value.toUInt8 ||| 0x80]) (value >>> 7) result) : Puts out value result

/-- The loop that counts groups, without a bound on its passes. -/
inductive Counts : Nat → UInt64 → Nat → Prop
  | last {size : Nat} {value : UInt64} (fits : value < 0x80) : Counts size value size
  | more {size total : Nat} {value : UInt64} (large : ¬ value < 0x80)
      (later : Counts (size + 1) (value >>> 7) total) : Counts size value total

theorem shifted_lt {value : UInt64} (large : ¬ value < 0x80) : (value >>> 7).toNat < value.toNat := by
  rw [shifted_toNat]
  rw [UInt64.lt_iff_toNat_lt,show (0x80 : UInt64).toNat = 128 from rfl] at large
  omega

/-- A bound that leaves room for the value is as good as one more. -/
theorem encodeGroups_succ {more : Nat} {value : UInt64} (room : value.toNat < 128 ^ (more + 1)) :
    encodeGroups (more + 1) value = encodeGroups more value := by
  induction more generalizing value with
  | zero =>
    have fits : value < 0x80 := UInt64.lt_iff_toNat_lt.mpr room
    simp only [encodeGroups,if_pos fits]
  | succ more ih =>
    have smaller : (value >>> 7).toNat < 128 ^ (more + 1) := by
      rw [Nat.pow_succ] at room
      rw [shifted_toNat]
      omega
    rw [encodeGroups,ih smaller,encodeGroups]

theorem encode_eq (value : UInt64) : encode value =
    if value < 0x80 then [value.toUInt8] else (value.toUInt8 ||| 0x80) :: encode (value >>> 7) := by
  have room : (value >>> 7).toNat < 128 ^ 9 := by
    have := value.toNat_lt
    rw [shifted_toNat]
    omega
  rw [encode,encodeGroups,encode,encodeGroups_succ room]

theorem puts_encode (out : Bytes) (value : UInt64) : Puts out value (out ++ encode value) := by
  -- Each pass divides the value, so there is a last one.
  induction size : value.toNat using Nat.strongRecOn generalizing out value with
  | ind n ih =>
    rw [encode_eq]
    split
    · rename_i fits
      exact .last fits
    · rename_i large
      have later := ih _ (size ▸ shifted_lt large) (out ++ [value.toUInt8 ||| 0x80]) _ rfl
      rw [List.append_assoc] at later
      exact .more large later

theorem Puts.eq {out result : Bytes} {value : UInt64} (puts : Puts out value result) :
    result = out ++ encode value := by
  induction puts with
  | @last out value fits => rw [encode_eq value,if_pos fits]
  | @more out result value large later ih =>
    rw [ih,encode_eq value,if_neg large,List.append_assoc,List.singleton_append]

theorem countGroups_eq (more size : Nat) (value : UInt64) :
    countGroups more size value + 1 = size + (encodeGroups more value).length := by
  induction more generalizing size value with
  | zero => rfl
  | succ more ih =>
    rw [countGroups,encodeGroups]
    split
    · rfl
    · rw [ih,List.length_cons]
      omega

theorem length_encode (value : UInt64) : (encode value).length = encodedSize value := by
  have counted := countGroups_eq 9 1 value
  rw [encode,encodedSize]
  omega

theorem encodedSize_eq (value : UInt64) :
    encodedSize value = if value < 0x80 then 1 else encodedSize (value >>> 7) + 1 := by
  rw [← length_encode,encode_eq]
  split
  · rfl
  · rw [List.length_cons,length_encode]

theorem counts_encodedSize (size : Nat) (value : UInt64) :
    Counts (size + 1) value (size + encodedSize value) := by
  induction room : value.toNat using Nat.strongRecOn generalizing size value with
  | ind n ih =>
    rw [encodedSize_eq]
    split
    · rename_i fits
      exact .last fits
    · rename_i large
      have later := ih _ (room ▸ shifted_lt large) (size + 1) _ rfl
      rw [Nat.add_assoc size 1 (encodedSize _),Nat.add_comm 1] at later
      exact .more large later

theorem Counts.eq {size total : Nat} {value : UInt64} (counts : Counts size value total) :
    total + 1 = size + encodedSize value := by
  induction counts with
  | @last size value fits => rw [encodedSize_eq,if_pos fits]
  | @more size total value large later ih =>
    rw [ih,encodedSize_eq value,if_neg large]
    omega

theorem encodedSize_le {other : Bytes} {value : UInt64}
    (read : decode other 0 = .ok (some (other.length,value))) :
    encodedSize value ≤ other.length ∧ (encodedSize value = other.length → other = encode value) := by
  obtain ⟨front,rest,split,long,spelled⟩ := decode_eq_some_iff.mp read
  have none : rest = [] := by
    rw [split,List.length_append] at long
    exact List.length_eq_zero_iff.mp (by omega)
  rw [none,List.append_nil] at split
  subst split
  rw [← length_encode]
  exact ⟨length_encode_le spelled,fun same => spelled.unique (spells_encode value) same.symm⟩

theorem encode_prefix_iff {value other : UInt64} : encode value <+: encode other ↔ value = other := by
  constructor
  · rintro ⟨rest,whole⟩
    have first := decode_of_spells (spells_encode value) rest
    have second := decode_of_spells (spells_encode other) []
    rw [List.append_nil] at second
    rw [whole,second] at first
    simpa [Nat.toUInt64] using congrArg (Option.map Prod.snd) (Except.ok.inj first).symm
  · rintro rfl
    exact List.prefix_refl _

/-- Encoding is canonical: it appends between one and ten bytes, as many as are counted beforehand, which
are read back as the value in whatever surroundings; all other spellings of the value are longer, and no
encoding begins with that of another value. -/
theorem encode_canonical (value : UInt64) :
    (∀ out result, Puts out value result ↔ result = out ++ encode value) ∧
    (∀ size, Counts 1 value size ↔ size = encodedSize value) ∧
    (encode value).length = encodedSize value ∧ 1 ≤ encodedSize value ∧ encodedSize value ≤ 10 ∧
    (∀ before after, decode (before ++ (encode value ++ after)) before.length =
      .ok (some (encodedSize value,value))) ∧
    (∀ other, decode other 0 = .ok (some (other.length,value)) → other ≠ encode value →
      encodedSize value < other.length) ∧
    ∀ other, other ≠ value → ¬ encode value <+: encode other := by
  have long := length_encode value
  have spelled := spells_encode value
  have positive := spelled.length_pos
  have short := spelled.length_le
  simp only [maxEncodedSize] at short
  refine ⟨fun out result => ⟨Puts.eq,?_⟩,fun size => ⟨fun counts => ?_,?_⟩,long,by omega,by omega,?_,?_,?_⟩
  · rintro rfl
    exact puts_encode out value
  · have := counts.eq
    omega
  · rintro rfl
    simpa using counts_encodedSize 0 value
  · intro before after
    have read := decode_of_spells spelled after
    rw [long] at read
    simpa [decode,Nat.toUInt64] using read
  · intro other read differs
    obtain ⟨least,unique⟩ := encodedSize_le read
    exact Nat.lt_of_le_of_ne least fun same => differs (unique same)
  · intro other differs begins
    exact differs (encode_prefix_iff.mp begins).symm

/-- 300 takes two bytes, and three where a group without bits is put behind them. -/
theorem encode_canonical_padded :
    decode [0xAC,0x82,0x00] 0 = .ok (some (3,300)) ∧ encodedSize 300 < 3 ∧
      decode [0x09,0xAC,0x02,0x05] 1 = .ok (some (encodedSize 300,300)) ∧
      ¬ encode 300 <+: encode 38444 := by
  obtain ⟨-,-,-,-,-,reads,least,apart⟩ := encode_canonical 300
  exact ⟨rfl,least [0xAC,0x82,0x00] rfl (by decide),reads [0x09] [0x05],apart 38444 (by decide)⟩

end SessionPipeline.VarInt
