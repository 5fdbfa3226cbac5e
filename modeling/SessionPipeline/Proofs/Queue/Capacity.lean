import Mathlib.Order.Bounds.Basic
import SessionPipeline.Proofs.Queue.Shape

/-! The capacities that rings ask for. Doubling reaches the least power of two with room for what is
requested before a word overflows, and would never end where no word is large enough; so a ring that
shrinks always keeps a slot free. -/
namespace SessionPipeline.Ring

/-- The doubling loop with the words that it doubles, without a bound on its passes. -/
inductive Doubles (requested : UInt64) : UInt64 → List UInt64 → UInt64 → Prop
  | done {actual : UInt64} (enough : ¬ actual < requested) : Doubles requested actual [] actual
  | pass {actual capacity : UInt64} {later : List UInt64} (short : actual < requested)
      (next : Doubles requested (actual <<< 1) later capacity) :
      Doubles requested actual (actual :: later) capacity

/-- The powers of two with room for so many elements. -/
def roomy (count : Nat) : Set Nat := {capacity | (∃ k, capacity = 2^k) ∧ count ≤ capacity}

theorem doubleUntil_doubles {requested : UInt64} (small : requested.toNat ≤ 2^63) :
    ∀ (fuel k : Nat) (actual : UInt64), 64 ≤ fuel + k → k ≤ 63 → actual.toNat = 2^k →
      ∃ passes, Doubles requested actual passes (doubleUntil requested fuel actual) ∧
        ∀ doubled ∈ passes, (doubled <<< 1).toNat = 2*doubled.toNat := by
  intro fuel
  induction fuel with
  | zero =>
    intro k actual enough low
    omega
  | succ fuel ih =>
    intro k actual enough low power
    by_cases short : actual < requested
    · have below : actual.toNat < 2^63 := (UInt64.lt_iff_toNat_lt.mp short).trans_le small
      have exact := doubled_toNat below
      have room : k < 63 := (Nat.pow_lt_pow_iff_right (by omega)).mp (power ▸ below)
      have next : (actual <<< 1).toNat = 2^(k+1) := by rw [exact,power,Nat.pow_succ,Nat.mul_comm]
      obtain ⟨later,doubles,unharmed⟩ := ih (k+1) (actual <<< 1) (by omega) (by omega) next
      rw [doubleUntil,if_pos short]
      exact ⟨actual :: later,.pass short doubles,List.forall_mem_cons.mpr ⟨exact,unharmed⟩⟩
    · rw [doubleUntil,if_neg short]
      exact ⟨[],.done short,by simp⟩

/-- Past the largest power of two the loop runs through all of them, then stays at zero. -/
theorem Doubles.not_beyond {requested : UInt64} (large : 2^63 < requested.toNat) {actual capacity : UInt64}
    {passes : List UInt64} (doubles : Doubles requested actual passes capacity)
    (start : actual = 0 ∨ ∃ k ≤ 63, actual.toNat = 2^k) : False := by
  induction doubles with
  | @done actual enough =>
    have reached : requested.toNat ≤ actual.toNat := UInt64.le_iff_toNat_le.mp (UInt64.not_lt.mp enough)
    rcases start with rfl | ⟨k,low,power⟩
    · simp at reached
      omega
    · have := Nat.pow_le_pow_right (show 0 < 2 by omega) low
      omega
  | @pass actual capacity later short next ih =>
    apply ih
    rcases start with rfl | ⟨k,low,power⟩
    · exact .inl (by decide)
    · by_cases top : k = 63
      · left
        rw [← UInt64.toNat_inj,UInt64.toNat_shiftLeft,power,top]
        decide
      · have less : 2^k < 2^63 := Nat.pow_lt_pow_right (by omega) (by omega)
        refine .inr ⟨k+1,by omega,?_⟩
        rw [doubled_toNat (power ▸ less),power,Nat.pow_succ,Nat.mul_comm]

theorem doubleUntil_least {requested : UInt64} (small : requested.toNat ≤ 2^63) :
    IsLeast (roomy (max requested.toNat 1)) (doubleUntil requested 64 1).toNat := by
  obtain ⟨m,reached,enough⟩ := doubleUntil_pow small 64 0 1 (by omega) (by omega) rfl
  have positive := Nat.two_pow_pos m
  refine ⟨⟨⟨m,reached⟩,by omega⟩,?_⟩
  rintro other ⟨⟨k,rfl⟩,room⟩
  rcases doubleUntil_lt small 64 1 with one | less
  · rw [one,UInt64.toNat_one]
    exact Nat.two_pow_pos k
  · rw [reached] at less ⊢
    have below : 2^m < 2^(k+1) := by
      rw [Nat.pow_succ]
      omega
    exact Nat.pow_le_pow_right (by omega) (Nat.lt_succ_iff.mp ((Nat.pow_lt_pow_iff_right (by omega)).mp below))

theorem normalize_small {requested : UInt64} (small : requested.toNat ≤ 2^63) :
    normalize requested = .ok (doubleUntil requested 64 1) := by
  have within : ¬ requested > maximumCapacity := UInt64.not_lt.mpr (UInt64.le_iff_toNat_le.mpr small)
  rw [normalize,if_neg within]

theorem normalize_large {requested : UInt64} (large : 2^63 < requested.toNat) :
    normalize requested = .error (.length ("RingBuffer capacity " ++ toString requested.toNat ++
      " exceeds the largest power of two")) := by
  have beyond : requested > maximumCapacity := UInt64.lt_iff_toNat_lt.mpr large
  rw [normalize,if_pos beyond]

theorem toNat_count {count : Nat} (few : count < 2^63) : count.toUInt64.toNat = count := by
  simp
  omega

/-- A shrink asks for the least power of two that leaves a slot free. -/
theorem shrunkCapacity_least {count : Nat} (few : count < 2^63) :
    IsLeast (roomy (count+1)) (shrunkCapacity count) := by
  obtain ⟨m,power,room⟩ := shrunkCapacity_pow few
  refine ⟨⟨⟨m,power⟩,by omega⟩,?_⟩
  rintro other ⟨⟨k,rfl⟩,more⟩
  have same := toNat_count few
  obtain ⟨-,least⟩ := doubleUntil_least (show count.toUInt64.toNat ≤ 2^63 by omega)
  have fits := least ⟨⟨k,rfl⟩,by omega⟩
  simp only [shrunkCapacity,beq_iff_eq]
  split
  · rename_i filled
    -- The next power of two after one that is filled is its double.
    obtain ⟨j,reached,-⟩ :=
      doubleUntil_pow (show count.toUInt64.toNat ≤ 2^63 by omega) 64 0 1 (by omega) (by omega) rfl
    rw [← filled] at reached ⊢
    rw [reached,Nat.mul_comm,← Nat.pow_succ]
    have above : 2^j < 2^k := by omega
    exact Nat.pow_le_pow_right (by omega) ((Nat.pow_lt_pow_iff_right (by omega)).mp above)
  · exact fits

/-- The capacity that a ring chooses when it shrinks. -/
def target {α : Type} (r : Ring α) : Nat := max (shrunkCapacity r.size) r.initialCapacity

/-- A ring that has been moved to an array of the capacity that it chooses. -/
structure Repacked {α : Type} (r s : Ring α) : Prop where
  chosen : s.capacity = r.target
  power : ∃ k, s.capacity = 2^k
  room : r.size < s.capacity
  size : s.size = r.size
  unfilled : s.full = false
  first : s.first = 0
  last : s.last = r.size
  inside : s.last < s.capacity

/-- What becomes of a ring that considers a smaller array: it moves if the array is smaller and it is due. -/
structure Considers {α : Type} (r s : Ring α) : Prop where
  moves : r.size ≤ r.shrinkThreshold → r.target < r.capacity → Repacked r s
  stays : r.shrinkThreshold < r.size ∨ r.capacity ≤ r.target → s = r

variable {α : Type} [Inhabited α]

theorem Holds.shrinks {r : Ring α} {xs : List α} (held : r.Holds xs) (few : r.size < 2^63) :
    Considers r r.shrink := by
  have room : r.size < r.target := (shrunkCapacity_least few).1.2.trans (le_max_left _ _)
  have after := held.shrink (held.size_eq ▸ few)
  have same := after.size_eq.trans held.size_eq.symm
  have power := after.capacity
  have least := held.least
  have bound : r.target = max (shrunkCapacity r.size) r.initialCapacity := rfl
  constructor
  · intro due smaller
    have moved : r.shrink = { r.repack r.target r.size with shrinkThreshold := 0 } := by
      rw [Ring.shrink,target]
      dsimp only
      rw [if_neg (by simp; omega),if_neg (by simp; omega)]
    rw [moved] at same power ⊢
    have size := r.capacity_repack room.le
    exact ⟨size,power,room.trans_eq size.symm,same,rfl,rfl,rfl,room.trans_eq size.symm⟩
  · intro stays
    rw [Ring.shrink]
    dsimp only
    split
    · rfl
    · split
      · rfl
      · rename_i due smaller
        simp only [Bool.or_eq_true,Bool.and_eq_true,decide_eq_true_eq,beq_iff_eq] at due smaller
        omega

/-- Doubling ends at the least power of two that is large enough, without losing a bit on the way, exactly
up to the largest power of two; what is beyond is refused, where the loop would never end. The capacity
that a shrink asks for is the least power of two above the count, so a ring that a poll moves to a smaller
array has a slot free and its tail within the array. -/
theorem capacities_suffice (requested : UInt64) :
    (requested.toNat ≤ 2^63 → ∃ passes capacity, Doubles requested 1 passes capacity ∧
      (∀ doubled ∈ passes, (doubled <<< 1).toNat = 2*doubled.toNat) ∧
      normalize requested = .ok capacity ∧ IsLeast (roomy (max requested.toNat 1)) capacity.toNat) ∧
    (2^63 < requested.toNat →
      normalize requested = .error (.length ("RingBuffer capacity " ++ toString requested.toNat ++
        " exceeds the largest power of two")) ∧
      ∀ passes capacity, ¬ Doubles requested 1 passes capacity) ∧
    (∀ count < 2^63, IsLeast (roomy (count+1)) (shrunkCapacity count) ∧
      ∃ fitting, normalize count.toUInt64 = .ok fitting ∧
        shrunkCapacity count =
          if fitting.toNat = count then (fitting <<< 1).toNat else fitting.toNat) ∧
    ∀ (α : Type) [Inhabited α] (allocation : Allocation) (r : Ring α)
      (operations : List (Fifo.Operation α)), create allocation requested = .ok r →
      (∀ before ∈ operations.inits, (Fifo.replay apply r before).2.capacity ≤ 2^63) →
      let s := (Fifo.replay apply r operations).2
      s.isEmpty = false → s.poll = some (s.slot 0,s.beheaded.shrink) ∧
        s.beheaded.size < 2^63 ∧ Considers s.beheaded s.beheaded.shrink := by
  refine ⟨fun small => ?_,fun large => ⟨normalize_large large,?_⟩,fun count few => ?_,?_⟩
  · obtain ⟨passes,doubles,unharmed⟩ := doubleUntil_doubles small 64 0 1 (by omega) (by omega) rfl
    exact ⟨passes,_,doubles,unharmed,normalize_small small,doubleUntil_least small⟩
  · exact fun passes capacity doubles => doubles.not_beyond large (.inr ⟨0,by omega,rfl⟩)
  · have same := toNat_count few
    refine ⟨shrunkCapacity_least few,_,normalize_small (by omega),?_⟩
    simp only [shrunkCapacity,beq_iff_eq,eq_comm (a := count)]
    split
    · rename_i filled
      rw [doubled_toNat (filled.trans_lt few)]
    · rfl
  · intro α _ allocation r operations created small s occupied
    obtain ⟨xs,trim,-⟩ := replay_trim created small
    have room : s.capacity ≤ 2^63 := small operations (List.mem_inits _ _ |>.mpr (List.prefix_refl _))
    have some := trim.held.isEmpty_eq.symm.trans occupied
    obtain ⟨x,rest,rfl⟩ := List.exists_cons_of_ne_nil (List.isEmpty_eq_false_iff.mp some)
    have headless := trim.beheaded.held
    have few : s.beheaded.size < 2^63 := headless.size_eq ▸ trim.held.fits.trans room
    exact ⟨poll_eq occupied,few,headless.shrinks few⟩

/-- A ring that has grown to 64 slots and is down to eight elements moves to 16 slots; one that has grown
from 4 to 8 and is empty moves back to 4, though one slot would do. -/
theorem capacities_suffice_marked :
    let marked : Ring Nat := (Fifo.replay apply (vacant 4 4)
      ((List.range 33).map .offer ++ List.replicate 24 .poll)).2
    let drained : Ring Nat := (Fifo.replay apply (vacant 4 4)
      ((List.range 5).map .offer ++ List.replicate 4 .poll)).2
    Repacked marked.beheaded marked.beheaded.shrink ∧ marked.beheaded.shrink.capacity = 16 ∧
      Repacked drained.beheaded drained.beheaded.shrink ∧ drained.beheaded.shrink.capacity = 4 := by
  intro marked drained
  have created : create .unlimited 3 = .ok (vacant 4 4 : Ring Nat) := rfl
  obtain ⟨-,-,-,shrinks⟩ := capacities_suffice 3
  obtain ⟨-,-,first⟩ := shrinks Nat .unlimited (vacant 4 4)
    ((List.range 33).map .offer ++ List.replicate 24 .poll) created (by decide +kernel) (by decide +kernel)
  obtain ⟨-,-,second⟩ := shrinks Nat .unlimited (vacant 4 4)
    ((List.range 5).map .offer ++ List.replicate 4 .poll) created (by decide +kernel) (by decide +kernel)
  exact ⟨first.moves (by decide +kernel) (by decide +kernel),by decide +kernel,
    second.moves (by decide +kernel) (by decide +kernel),by decide +kernel⟩

end SessionPipeline.Ring
