import Mathlib.Algebra.GroupWithZero.Nat
import SessionPipeline.Proofs.Wire.VarInt

/-! The grammar of integers. Bytes either begin with an integer, or overflow 64 bits at their tenth, or
are too few to tell; decoding returns, throws and waits accordingly, and whatever it does not wait for
is the same for every continuation of the bytes. -/
namespace SessionPipeline.VarInt

/-- One decoding as the caller sees it: what is returned or thrown, what the variable that was handed in
holds afterwards, and by how many bits each group was shifted on the way. -/
structure Run where
  returned : Except Failure Nat
  value : UInt64
  shifts : List UInt64

def runFrom (value : UInt64) (consumed : Nat) (result shift : UInt64) : Bytes → Run
  | [] => ⟨.ok 0, value, []⟩
  | byte :: rest =>
    if consumed + 1 == maxEncodedSize && byte > 0x01 then
      ⟨.error (.decoding "varint overflows 64 bits"), value, []⟩
    else
      let result := result ||| (byte &&& 0x7f).toUInt64 <<< shift
      if byte &&& 0x80 == 0 then ⟨.ok (consumed + 1), result, [shift]⟩
      else
        let later := runFrom value (consumed + 1) result (shift + 7) rest
        { later with shifts := shift :: later.shifts }

def run (bytes : Bytes) (offset : Nat) (value : UInt64) : Run := runFrom value 0 0 0 (bytes.drop offset)

/-- What a run has read: nothing if no byte was consumed. -/
def Run.read (run : Run) : Except Failure (Option (Nat × UInt64)) :=
  run.returned.map fun n => if n = 0 then none else some (n, run.value)

/-- The bytes begin with an integer of `n` bytes: all but its last have the high bit set, there are ten
at most, and a tenth carries bit 63 alone. -/
def Begins (bytes : Bytes) (n : Nat) : Prop :=
  ∃ front last rest, bytes = front ++ last :: rest ∧ front.length + 1 = n ∧
    (∀ byte ∈ front, 128 ≤ byte.toNat) ∧ last.toNat < 128 ∧ n ≤ 10 ∧ (n = 10 → last.toNat ≤ 1)

/-- The low seven bits of each byte, each group weighing 128 times the one before. -/
def total (bytes : Bytes) : Nat :=
  (bytes.mapIdx fun i byte => byte.toNat % 128 * 2 ^ (7 * i)).sum

theorem sum_mapIdx_mul {α : Type} (c : Nat) (weight : Nat → α → Nat) (items : List α) :
    (items.mapIdx fun i item => c * weight i item).sum = c * (items.mapIdx weight).sum := by
  induction items generalizing weight with
  | nil => rfl
  | cons item rest ih => simp only [List.mapIdx_cons,List.sum_cons,ih,Nat.mul_add]

theorem total_cons (byte : UInt8) (rest : Bytes) :
    total (byte :: rest) = byte.toNat % 128 + 128 * total rest := by
  have heavier (i : Nat) (b : UInt8) :
      b.toNat % 128 * 2 ^ (7 * (i + 1)) = 128 * (b.toNat % 128 * 2 ^ (7 * i)) := by
    rw [Nat.mul_add 7,Nat.pow_add,Nat.mul_comm 128,Nat.mul_assoc]
  simp only [total,List.mapIdx_cons,List.sum_cons,heavier,sum_mapIdx_mul]
  simp

theorem Spells.value_eq_total {before value : Nat} {bytes : Bytes}
    (spelled : Spells before bytes value) : value = total bytes := by
  induction spelled with
  | last room low fits =>
    rw [total_cons,Nat.mod_eq_of_lt low]
    rfl
  | @more before byte rest value room high later ih =>
    have := byte.toNat_lt
    rw [total_cons,← ih]
    omega

/-- The shape of a spelling, without what it spells. -/
theorem spells_total_iff {before : Nat} {bytes : Bytes} :
    Spells before bytes (total bytes) ↔ ∃ front last, bytes = front ++ [last] ∧
      before + front.length < 10 ∧ (∀ byte ∈ front, 128 ≤ byte.toNat) ∧ last.toNat < 128 ∧
      (before + front.length = 9 → last.toNat ≤ 1) := by
  constructor
  · intro spelled
    generalize total bytes = value at spelled
    induction spelled with
    | last room low fits => exact ⟨[],_,rfl,room,by simp,low,fits⟩
    | more room high later ih =>
      obtain ⟨front,last,rfl,short,all,low,fits⟩ := ih
      simp only [Nat.add_right_comm _ 1] at short fits
      exact ⟨_ :: front,last,rfl,short,List.forall_mem_cons.mpr ⟨high,all⟩,low,fits⟩
  · rintro ⟨front,last,rfl,short,high,low,fits⟩
    induction front generalizing before with
    | nil =>
      have spelled := Spells.last short low fits
      rwa [spelled.value_eq_total] at spelled
    | cons byte front ih =>
      obtain ⟨first,high⟩ := List.forall_mem_cons.mp high
      simp only [List.length_cons] at short fits
      have later : Spells (before + 1) _ _ := ih (by omega) high fun nine => fits (by omega)
      have spelled := Spells.more (by omega) first later
      rwa [spelled.value_eq_total] at spelled

theorem begins_iff {bytes : Bytes} {n : Nat} :
    Begins bytes n ↔ ∃ front rest, bytes = front ++ rest ∧ front.length = n ∧
      Spells 0 front (total front) := by
  constructor
  · rintro ⟨front,last,rest,rfl,rfl,high,low,short,fits⟩
    refine ⟨front ++ [last],rest,by simp,by simp,spells_total_iff.mpr ⟨front,last,rfl,?_⟩⟩
    exact ⟨by omega,high,low,fun nine => fits (by omega)⟩
  · rintro ⟨whole,rest,rfl,rfl,spelled⟩
    obtain ⟨front,last,rfl,short,high,low,fits⟩ := spells_total_iff.mp spelled
    refine ⟨front,last,rest,by simp,by simp,high,low,?_,?_⟩
    · simp only [List.length_append,List.length_singleton]
      omega
    · simp only [List.length_append,List.length_singleton]
      exact fun ten => fits (by omega)

/-- A run reads what decoding does, and writes the variable only where a byte is consumed. -/
theorem runFrom_reads (value : UInt64) (consumed : Nat) (result shift : UInt64) (bytes : Bytes) :
    (runFrom value consumed result shift bytes).read = decodeFrom consumed result shift bytes ∧
      ((runFrom value consumed result shift bytes).value = value ∨
        ∃ n, (runFrom value consumed result shift bytes).returned = .ok (n + 1)) := by
  induction bytes generalizing consumed result shift with
  | nil => exact ⟨rfl,.inl rfl⟩
  | cons byte rest ih =>
    rw [runFrom,decodeFrom]
    split
    · exact ⟨rfl,.inl rfl⟩
    · dsimp only
      split
      · exact ⟨rfl,.inr ⟨consumed,rfl⟩⟩
      · exact ih _ _ _

/-- No group is shifted beyond bit 63: the tenth is the last that can be, and it is refused or ends. -/
theorem runFrom_shifts (value result : UInt64) {before : Nat} (room : before < 10) (bytes : Bytes) :
    ∀ shift ∈ (runFrom value before result (7 * before).toUInt64 bytes).shifts, shift.toNat ≤ 63 := by
  induction bytes generalizing before result with
  | nil => simp [runFrom]
  | cons byte rest ih =>
    have shift : (7 * before).toUInt64.toNat = 7 * before := by
      simp only [Nat.toUInt64,UInt64.toNat_ofNat']
      omega
    rw [runFrom,overflow_byte,high_bit_clear]
    split
    · simp
    · rename_i fits
      split
      · simp only [List.mem_singleton]
        rintro _ rfl
        omega
      · rename_i high
        simp only [decide_eq_true_eq] at fits high
        rw [List.forall_mem_cons,next_shift]
        exact ⟨by omega,ih _ (by omega)⟩

/-- A run that does not wait has not looked at the end of the bytes. -/
theorem runFrom_append {value result shift : UInt64} {consumed : Nat} {bytes : Bytes}
    (settled : (runFrom value consumed result shift bytes).returned ≠ .ok 0) (more : Bytes) :
    runFrom value consumed result shift (bytes ++ more) = runFrom value consumed result shift bytes := by
  induction bytes generalizing consumed result shift with
  | nil => exact absurd rfl settled
  | cons byte rest ih =>
    rw [List.cons_append,runFrom,runFrom]
    rw [runFrom] at settled
    split
    · rfl
    · rename_i fits
      rw [if_neg fits] at settled
      dsimp only at settled ⊢
      split
      · rfl
      · rename_i high
        rw [if_neg high] at settled
        rw [ih settled]

/-- What one decoding comes to, told by the bytes from the offset on. -/
structure Grammar (bytes : Bytes) (offset : Nat) (value : UInt64) (run : Run) : Prop where
  reads : run.read = decode bytes offset
  consumes : ∀ n, run.returned = .ok n ∧ 0 < n ↔ Begins (bytes.drop offset) n
  sums : ∀ n, Begins (bytes.drop offset) n →
    run.value.toNat = total ((bytes.drop offset).take n) ∧ total ((bytes.drop offset).take n) < 2 ^ 64
  throws : ∀ failure, run.returned = .error failure ↔
    Overflows 0 (bytes.drop offset) ∧ failure = .decoding "varint overflows 64 bits"
  waits : run.returned = .ok 0 ↔
    (∀ n, ¬ Begins (bytes.drop offset) n) ∧ ¬ Overflows 0 (bytes.drop offset)
  untouched : run.value = value ∨ ∃ n, run.returned = .ok n ∧ 0 < n
  shifts : ∀ shift ∈ run.shifts, shift.toNat ≤ 63
  stable : run.returned = .ok 0 ∨ ∀ more, VarInt.run (bytes ++ more) offset value = run

theorem run_append {bytes : Bytes} {offset : Nat} {value : UInt64}
    (settled : (run bytes offset value).returned ≠ .ok 0) (more : Bytes) :
    run (bytes ++ more) offset value = run bytes offset value := by
  have inside : offset ≤ bytes.length := by
    refine Nat.le_of_not_lt fun beyond => settled ?_
    rw [run,List.drop_eq_nil_of_le (Nat.le_of_lt beyond)]
    rfl
  rw [run,List.drop_append_of_le_length inside]
  exact runFrom_append settled more

theorem Run.read_eq_some_iff {run : Run} {n : Nat} {value : UInt64} :
    run.read = .ok (some (n,value)) ↔ (run.returned = .ok n ∧ 0 < n) ∧ run.value = value := by
  obtain ⟨returned,held,shifts⟩ := run
  cases returned with
  | error failure => simp [Run.read,Except.map]
  | ok consumed =>
    simp only [Run.read,Except.map,Except.ok.injEq]
    split
    · simp only [reduceCtorEq,false_iff]
      omega
    · simp only [Option.some.injEq,Prod.mk.injEq]
      constructor
      · rintro ⟨rfl,same⟩
        exact ⟨⟨rfl,by omega⟩,same⟩
      · rintro ⟨⟨rfl,-⟩,same⟩
        exact ⟨rfl,same⟩

theorem Run.read_eq_none_iff {run : Run} : run.read = .ok none ↔ run.returned = .ok 0 := by
  obtain ⟨returned,held,shifts⟩ := run
  cases returned <;> simp [Run.read,Except.map]

theorem Run.read_eq_error_iff {run : Run} {failure : Failure} :
    run.read = .error failure ↔ run.returned = .error failure := by
  obtain ⟨returned,held,shifts⟩ := run
  cases returned <;> simp [Run.read,Except.map]

section Outcomes

variable (bytes : Bytes) (offset : Nat) (value : UInt64)

theorem run_reads : (run bytes offset value).read = decode bytes offset :=
  (runFrom_reads value 0 0 0 (bytes.drop offset)).1

theorem run_consumes (n : Nat) :
    (run bytes offset value).returned = .ok n ∧ 0 < n ↔ Begins (bytes.drop offset) n := by
  have reads := run_reads bytes offset value
  rw [begins_iff]
  constructor
  · intro returned
    have read := Run.read_eq_some_iff.mpr ⟨returned,rfl⟩
    obtain ⟨front,rest,split,long,spelled⟩ := decode_eq_some_iff.mp (reads.symm.trans read)
    exact ⟨front,rest,split,long,spelled.value_eq_total ▸ spelled⟩
  · rintro ⟨front,rest,split,rfl,spelled⟩
    rw [decode,split] at reads
    exact (Run.read_eq_some_iff.mp (reads.trans (decode_of_spells spelled rest))).1

theorem run_sums {bytes : Bytes} {offset n : Nat} (begins : Begins (bytes.drop offset) n) :
    (run bytes offset value).value.toNat = total ((bytes.drop offset).take n) ∧
      total ((bytes.drop offset).take n) < 2 ^ 64 := by
  have reads := run_reads bytes offset value
  obtain ⟨front,rest,split,rfl,spelled⟩ := begins_iff.mp begins
  have small : total front < 2 ^ 64 := spelled.value_lt
  rw [decode,split] at reads
  rw [(Run.read_eq_some_iff.mp (reads.trans (decode_of_spells spelled rest))).2,split,List.take_left]
  simp only [Nat.toUInt64,UInt64.toNat_ofNat']
  exact ⟨Nat.mod_eq_of_lt small,small⟩

theorem run_throws (failure : Failure) : (run bytes offset value).returned = .error failure ↔
    Overflows 0 (bytes.drop offset) ∧ failure = .decoding "varint overflows 64 bits" := by
  rw [← Run.read_eq_error_iff,run_reads]
  exact decode_eq_error_iff

theorem run_waits : (run bytes offset value).returned = .ok 0 ↔
    (∀ n, ¬ Begins (bytes.drop offset) n) ∧ ¬ Overflows 0 (bytes.drop offset) := by
  constructor
  · intro waits
    refine ⟨fun n begins => ?_,fun overflows => ?_⟩
    · obtain ⟨returned,positive⟩ := (run_consumes bytes offset value n).mpr begins
      rw [waits,Except.ok.injEq] at returned
      omega
    · have thrown := (run_throws bytes offset value _).mpr ⟨overflows,rfl⟩
      rw [waits] at thrown
      cases thrown
  · rintro ⟨not_begins,not_overflows⟩
    -- Bytes that neither begin with an integer nor overflow end inside one.
    rw [← Run.read_eq_none_iff,run_reads]
    refine decode_eq_none_iff.mpr ?_
    rcases spells_or_unfinished_or_overflows 0 (bytes.drop offset) (by decide) with
      ⟨front,rest,n,split,spelled⟩ | unfinished | overflows
    · rw [spelled.value_eq_total] at spelled
      exact absurd (begins_iff.mpr ⟨front,rest,split,rfl,spelled⟩) (not_begins _)
    · exact unfinished
    · exact absurd overflows not_overflows

end Outcomes

/-- The outcomes of decoding are told apart by three kinds of bytes, and each kind is decoded alike
whatever the variable holds and whatever comes behind. -/
theorem run_grammar (bytes : Bytes) (offset : Nat) (value : UInt64) :
    Grammar bytes offset value (run bytes offset value) := by
  refine ⟨run_reads bytes offset value,run_consumes bytes offset value,fun n => run_sums value,
    run_throws bytes offset value,run_waits bytes offset value,?_,?_,?_⟩
  · rcases (runFrom_reads value 0 0 0 (bytes.drop offset)).2 with same | ⟨n,returned⟩
    · exact .inl same
    · exact .inr ⟨n + 1,returned,n.succ_pos⟩
  · exact runFrom_shifts value 0 (by decide) (bytes.drop offset)
  · by_cases waits : (run bytes offset value).returned = .ok 0
    · exact .inl waits
    · exact .inr (run_append waits)

/-- One in three bytes, behind another byte and before one that is not read. -/
example : run [0xFF,0x81,0x80,0x00,0x05] 1 7 = ⟨.ok 3,1,[0,7,14]⟩ := rfl

end SessionPipeline.VarInt
