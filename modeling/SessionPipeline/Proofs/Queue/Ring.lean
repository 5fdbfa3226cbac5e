import Mathlib.Data.Nat.ModEq
import SessionPipeline.Queue.Ring

/-! Which list a ring holds. A ring stands for a list when its marks span that many slots, wrapping
where they must, and the slots from the first mark on carry the elements in order. Every operation
leads from a ring that stands for one list to a ring that stands for the next. -/
namespace SessionPipeline.Ring

theorem doubled_toNat {actual : UInt64} (small : actual.toNat < 2^63) :
    (actual <<< 1).toNat = 2*actual.toNat := by
  rw [UInt64.toNat_shiftLeft,Nat.shiftLeft_eq]
  simp only [UInt64.reduceToNat,Nat.reduceMod,Nat.pow_one]
  omega

theorem doubleUntil_pow {requested : UInt64} (small : requested.toNat ≤ 2^63) :
    ∀ (fuel k : Nat) (actual : UInt64), 64 ≤ fuel + k → k ≤ 63 → actual.toNat = 2^k →
      ∃ m, (doubleUntil requested fuel actual).toNat = 2^m ∧ requested.toNat ≤ 2^m := by
  intro fuel
  induction fuel with
  | zero =>
    intro k actual enough low
    omega
  | succ fuel ih =>
    intro k actual enough low power
    by_cases less : actual < requested
    · simp only [doubleUntil,if_pos less]
      have below : 2^k < 2^63 := power ▸ (UInt64.lt_iff_toNat_lt.mp less).trans_le small
      have room : k < 63 := (Nat.pow_lt_pow_iff_right (by omega)).mp below
      refine ih (k+1) (actual <<< 1) (by omega) (by omega) ?_
      rw [doubled_toNat (power ▸ below),power,Nat.pow_succ,Nat.mul_comm]
    · refine ⟨k,?_,?_⟩
      · simp only [doubleUntil,if_neg less,power]
      · rw [← power]
        exact Nat.le_of_not_lt fun more => less (UInt64.lt_iff_toNat_lt.mpr more)

theorem shrunkCapacity_pow {count : Nat} (small : count < 2^63) :
    ∃ m, shrunkCapacity count = 2^m ∧ count < 2^m := by
  have same : count.toUInt64.toNat = count := by simp; omega
  obtain ⟨m,power,enough⟩ :=
    doubleUntil_pow (show count.toUInt64.toNat ≤ 2^63 by omega) 64 0 1 (by omega) (by omega) rfl
  rw [same] at enough
  by_cases equal : count = 2^m
  · refine ⟨m+1,?_,?_⟩
    · rw [shrunkCapacity,power,beq_iff_eq.mpr equal,if_pos rfl,Nat.pow_succ,Nat.mul_comm]
    · exact equal ▸ Nat.pow_lt_pow_succ (by omega)
  · refine ⟨m,?_,by omega⟩
    rw [shrunkCapacity,power,beq_eq_false_iff_ne.mpr equal]
    rfl

variable {α : Type} [Inhabited α]

/-- The ring stands for the list. -/
structure Holds (r : Ring α) (xs : List α) : Prop where
  capacity : ∃ k, r.capacity = 2^k
  initial : ∃ k, r.initialCapacity = 2^k
  least : r.initialCapacity ≤ r.capacity
  mask : r.mask = r.capacity - 1
  first : r.first < r.capacity
  last : r.last = (r.first + xs.length) % r.capacity
  full : r.full = true ↔ xs.length = r.capacity
  fits : xs.length ≤ r.capacity
  slots : ∀ i (inside : i < xs.length), r.slot i = xs[i]

/-- Different indices below the capacity have different places. -/
theorem place_ne {capacity i j : Nat} (first : Nat) (left : i < capacity) (right : j < capacity)
    (differ : i ≠ j) : (first + i) % capacity ≠ (first + j) % capacity := fun same =>
  differ ((Nat.ModEq.add_left_cancel' first same).eq_of_lt_of_lt left right)

theorem first_ne {capacity first i : Nat} (inside : first < capacity) (later : 0 < i)
    (less : i < capacity) : first ≠ (first + i) % capacity := by
  have differ := place_ne first (Nat.zero_lt_of_lt inside) less later.ne
  rwa [Nat.add_zero,Nat.mod_eq_of_lt inside] at differ

omit [Inhabited α] in
theorem and_mask {k capacity : Nat} (power : capacity = 2^k) (index : Nat) :
    index &&& (capacity-1) = index % capacity := by
  rw [power,Nat.and_two_pow_sub_one_eq_mod]

theorem slot_eq (r : Ring α) (index : Nat) :
    r.slot index = r.slots.getD ((r.first + index) &&& r.mask) default := rfl

theorem getD_written (slots : Array α) (place other : Nat) (value : α) (inside : place < slots.size) :
    (slots.setIfInBounds place value).getD other default =
      if place = other then value else slots.getD other default := by
  simp only [Array.getD_eq_getD_getElem?,Array.getElem?_setIfInBounds]
  split <;> simp_all

theorem capacity_vacant (initial capacity : Nat) :
    (vacant initial capacity : Ring α).capacity = capacity := by
  simp [vacant,Ring.capacity]

theorem capacity_repack (r : Ring α) {capacity count : Nat} (room : count ≤ capacity) :
    (r.repack capacity count).capacity = capacity := by
  simp [repack,Ring.capacity]
  omega

namespace Holds

variable {r : Ring α} {xs : List α} {x : α}

theorem positive (held : r.Holds xs) : 0 < r.capacity := Nat.zero_lt_of_lt held.first

theorem place_eq (held : r.Holds xs) (index : Nat) :
    (r.first + index) &&& r.mask = (r.first + index) % r.capacity := by
  obtain ⟨k,power⟩ := held.capacity
  rw [held.mask,and_mask power]

theorem place_lt (held : r.Holds xs) (index : Nat) :
    (r.first + index) % r.capacity < r.slots.size := Nat.mod_lt _ held.positive

theorem size_eq (held : r.Holds xs) : r.size = xs.length := by
  have inside := held.first
  have fits := held.fits
  by_cases whole : xs.length = r.capacity
  · rw [size,if_pos (held.full.mpr whole),whole]
  have unfilled : ¬ r.full = true := fun full => whole (held.full.mp full)
  have last := held.last
  rw [size,if_neg unfilled]
  by_cases wraps : r.first + xs.length < r.capacity
  · rw [Nat.mod_eq_of_lt wraps] at last
    rw [if_pos (by omega)]
    omega
  · rw [Nat.mod_eq_sub_mod (by omega),Nat.mod_eq_of_lt (by omega)] at last
    rw [if_neg (by omega)]
    omega

theorem isEmpty_eq (held : r.Holds xs) : r.isEmpty = xs.isEmpty := by
  have positive := held.positive
  have size := held.size_eq
  have full := held.full
  have last := held.last
  cases xs with
  | nil =>
    have unfilled : ¬ r.full = true := fun whole => by
      have := full.mp whole
      simp only [List.length_nil] at this
      omega
    simp only [List.length_nil,Nat.add_zero,Nat.mod_eq_of_lt held.first] at last
    simp [isEmpty,unfilled,last]
  | cons x xs =>
    simp only [isEmpty,List.isEmpty_cons,Bool.and_eq_false_iff,Bool.not_eq_false',beq_eq_false_iff_ne]
    by_cases whole : r.full = true
    · exact .inl whole
    · refine .inr fun same => ?_
      simp [Ring.size,whole,same] at size

theorem toList_eq (held : r.Holds xs) : r.toList = xs := by
  refine List.ext_getElem (by simp [toList,held.size_eq]) fun i inside within => ?_
  simpa [toList] using held.slots i within

/-- Neither the threshold nor the change count bears on the list. -/
theorem unmarked (held : r.Holds xs) (threshold : Nat) (changes : UInt64) :
    Holds { r with shrinkThreshold := threshold, changes := changes } xs :=
  ⟨held.capacity,held.initial,held.least,held.mask,held.first,held.last,held.full,held.fits,held.slots⟩

theorem vacant {initial : Nat} (power : ∃ k, initial = 2^k) :
    Holds (Ring.vacant initial initial : Ring α) [] := by
  have positive : 0 < initial := by
    obtain ⟨k,rfl⟩ := power
    exact Nat.two_pow_pos k
  refine ⟨?_,power,?_,?_,?_,(Nat.zero_mod _).symm,?_,Nat.zero_le _,by simp⟩
  all_goals rw [capacity_vacant]
  · exact power
  · exact Nat.le_refl _
  · rfl
  · exact positive
  · exact ⟨nofun,fun none => absurd none positive.ne⟩

theorem clear (held : r.Holds xs) : Holds r.clear [] :=
  (vacant held.initial).unmarked _ _

theorem repack (held : r.Holds xs) {capacity : Nat} (power : ∃ k, capacity = 2^k)
    (least : r.initialCapacity ≤ capacity) (room : xs.length < capacity) :
    Holds (r.repack capacity xs.length) xs := by
  have size := r.capacity_repack room.le
  refine ⟨?_,held.initial,size.symm ▸ least,?_,?_,?_,?_,?_,?_⟩
  · exact size.symm ▸ power
  · exact size.symm ▸ rfl
  · exact size.symm ▸ Nat.zero_lt_of_lt room
  · rw [size,Nat.mod_eq_of_lt] <;> simp [Ring.repack,room]
  · rw [size]
    exact ⟨nofun,fun filled => absurd filled room.ne⟩
  · exact size.symm ▸ room.le
  · intro i inside
    obtain ⟨k,power⟩ := power
    have place : (0 + i) &&& (capacity-1) = i := by
      rw [and_mask power,Nat.zero_add,Nat.mod_eq_of_lt (by omega)]
    rw [← held.slots i inside,slot_eq]
    simp only [Ring.repack,place]
    simp [Array.getD_eq_getD_getElem?,Array.getElem?_append,inside]

theorem expand (held : r.Holds xs) : Holds r.expand xs ∧ xs.length < r.expand.capacity := by
  have positive := held.positive
  by_cases whole : r.full = true
  · have count := held.full.mp whole
    have grown : Holds (r.repack (2*r.capacity) r.capacity) xs := by
      rw [← count]
      refine held.repack ?_ (by have := held.least; omega) (by omega)
      obtain ⟨k,power⟩ := held.capacity
      exact ⟨k+1,by rw [count,power,Nat.pow_succ,Nat.mul_comm]⟩
    have size : (r.repack (2*r.capacity) r.capacity).capacity = 2*r.capacity :=
      r.capacity_repack (by omega)
    simp only [Ring.expand,if_pos whole]
    split
    · exact ⟨grown.unmarked _ _,by change _ < (r.repack _ _).capacity; omega⟩
    · exact ⟨grown,by omega⟩
  · rw [Ring.expand,if_neg whole]
    have := held.full
    have := held.fits
    exact ⟨held,by grind⟩

/-- A ring over as many slots, with other marks and elements. -/
theorem resliced (held : r.Holds xs) {q : Ring α} {ys : List α} (slots : q.slots.size = r.capacity)
    (initial : q.initialCapacity = r.initialCapacity) (mask : q.mask = r.mask)
    (first : q.first < r.capacity) (last : q.last = (q.first + ys.length) % r.capacity)
    (full : q.full = true ↔ ys.length = r.capacity) (fits : ys.length ≤ r.capacity)
    (items : ∀ i (inside : i < ys.length),
      q.slots.getD ((q.first + i) % r.capacity) default = ys[i]) : q.Holds ys := by
  have size : q.capacity = r.capacity := slots
  refine ⟨size ▸ held.capacity,initial ▸ held.initial,?_,?_,?_,?_,?_,?_,?_⟩
  · rw [initial,size]
    exact held.least
  · rw [mask,size]
    exact held.mask
  · rw [size]
    exact first
  · rw [size]
    exact last
  · rw [size]
    exact full
  · rw [size]
    exact fits
  · intro i inside
    obtain ⟨k,power⟩ := held.capacity
    rw [← items i inside,slot_eq,mask,held.mask,and_mask power]

theorem append (held : r.Holds xs) (room : xs.length < r.capacity) (x : α) (changes : UInt64) :
    Holds { r with slots := r.slots.setIfInBounds r.last x, last := (r.last + 1) &&& r.mask,
                   full := r.first == (r.last + 1) &&& r.mask, changes := changes } (xs ++ [x]) := by
  have last : (r.last + 1) &&& r.mask = (r.first + (xs.length + 1)) % r.capacity := by
    obtain ⟨k,power⟩ := held.capacity
    rw [held.mask,and_mask power,held.last,Nat.mod_add_mod,Nat.add_assoc]
  refine held.resliced Array.size_setIfInBounds rfl rfl held.first ?_ ?_ ?_ ?_
  all_goals simp only [List.length_append,List.length_singleton]
  · exact last
  · rw [last,beq_iff_eq]
    refine ⟨fun same => ?_,fun filled => ?_⟩
    · by_contra less
      exact first_ne held.first (Nat.succ_pos _) (by omega) same
    · rw [filled,Nat.add_mod_right,Nat.mod_eq_of_lt held.first]
  · exact room
  · intro i inside
    have place := held.place_lt xs.length
    rw [held.last,getD_written _ _ _ _ place]
    by_cases old : i < xs.length
    · rw [if_neg (place_ne r.first room (by omega) old.ne'),List.getElem_append_left old,
        ← held.slots i old,slot_eq,held.place_eq]
    · obtain rfl : i = xs.length := by omega
      simp

theorem offer (held : r.Holds xs) (x : α) : Holds (r.offer x) (xs ++ [x]) := by
  obtain ⟨held,room⟩ := held.expand
  exact held.append room x _

/-- A ring grows to twice what it holds at most. -/
theorem offer_capacity (held : r.Holds xs) (x : α) :
    (r.offer x).capacity ≤ max r.capacity (2*xs.length) := by
  have size : (r.offer x).capacity = r.expand.capacity := Array.size_setIfInBounds
  rw [size]
  by_cases whole : r.full = true
  · have count := held.full.mp whole
    have grown : (r.repack (2*r.capacity) r.capacity).capacity = 2*r.capacity :=
      r.capacity_repack (by omega)
    have double : r.expand.capacity = 2*r.capacity := by
      simp only [Ring.expand,if_pos whole]
      split <;> exact grown
    omega
  · rw [Ring.expand,if_neg whole]
    exact le_max_left _ _

/-- What `poll` leaves before it considers a smaller array. -/
theorem behead (held : r.Holds (x :: xs)) (changes : UInt64) :
    let first := (r.first + 1) &&& r.mask
    let rest : Ring α := { r with slots := r.slots.setIfInBounds r.first default, full := false,
                                  first := first, changes := changes }
    Holds (if first == r.last then { rest with first := 0, last := 0 } else rest) xs := by
  intro first rest
  have fits : xs.length < r.capacity := held.fits
  have moved : first = (r.first + 1) % r.capacity := held.place_eq 1
  have inside : first < r.capacity := moved ▸ Nat.mod_lt _ held.positive
  have last : r.last = (first + xs.length) % r.capacity := by
    rw [held.last,List.length_cons,moved,Nat.mod_add_mod]
    congr 1
    omega
  split
  next same =>
    obtain rfl : xs = [] := by
      by_contra some
      exact first_ne inside (List.length_pos_iff.mpr some) fits (last ▸ beq_iff_eq.mp same)
    refine held.resliced Array.size_setIfInBounds rfl rfl held.positive (Nat.zero_mod _).symm ?_
      (Nat.zero_le _) (by simp)
    exact ⟨nofun,fun none => absurd none held.positive.ne⟩
  next differ =>
    refine held.resliced Array.size_setIfInBounds rfl rfl inside last ?_ fits.le ?_
    · exact ⟨nofun,fun filled => absurd filled fits.ne⟩
    · intro i within
      have later := held.slots (i+1) (by simpa using within)
      rw [List.getElem_cons_succ,slot_eq,held.place_eq] at later
      have place : (first + i) % r.capacity = (r.first + (i+1)) % r.capacity := by
        rw [moved,Nat.mod_add_mod]
        congr 1
        omega
      have apart := first_ne held.first (Nat.succ_pos i) (by omega)
      rw [← later,← place,getD_written _ _ _ _ held.first]
      exact if_neg (place ▸ apart)

theorem shrink (held : r.Holds xs) (few : xs.length < 2^63) : Holds r.shrink xs := by
  obtain ⟨m,power,room⟩ := shrunkCapacity_pow few
  simp only [Ring.shrink,held.size_eq]
  split
  · exact held
  split
  · exact held
  refine Holds.unmarked (r := { r.repack _ _ with shrinkThreshold := _ }) ?_ 0 _
  refine held.repack ?_ (le_max_right _ _) (power ▸ room |>.trans_le (le_max_left _ _))
  obtain ⟨k,initial⟩ := held.initial
  rcases le_total (shrunkCapacity xs.length) r.initialCapacity with less | more
  · exact ⟨k,by rw [max_eq_right less,initial]⟩
  · exact ⟨m,by rw [max_eq_left more,power]⟩

theorem shrink_capacity (held : r.Holds xs) (few : xs.length < 2^63) :
    r.shrink.capacity ≤ r.capacity := by
  obtain ⟨m,power,room⟩ := shrunkCapacity_pow few
  have least := held.least
  simp only [Ring.shrink,held.size_eq]
  split
  · exact Nat.le_refl _
  next going =>
    simp only [Bool.or_eq_true,decide_eq_true_eq,not_or] at going
    split
    · exact Nat.le_refl _
    · have size := r.capacity_repack
        (show xs.length ≤ max (shrunkCapacity xs.length) r.initialCapacity by omega)
      exact size.trans_le (by omega)

theorem poll_nil (held : r.Holds []) : r.poll = none := by
  rw [Ring.poll,held.isEmpty_eq,List.isEmpty_nil,if_pos rfl]

theorem poll_cons (held : r.Holds (x :: xs)) (small : r.capacity ≤ 2^63) :
    ∃ rest, r.poll = some (x,rest) ∧ rest.Holds xs ∧ rest.capacity ≤ r.capacity := by
  have head : r.slot 0 = x := held.slots 0 (Nat.succ_pos _)
  have rest := held.behead (r.changes+1)
  have same : ∀ {q : Ring α}, q.slots = r.slots.setIfInBounds r.first default → q.capacity = r.capacity :=
    fun slots => (congrArg Array.size slots).trans Array.size_setIfInBounds
  have few : xs.length < 2^63 := held.fits.trans small
  refine ⟨_,?polled,rest.shrink few,(rest.shrink_capacity few).trans_eq (same ?slots)⟩
  case polled =>
    rw [Ring.poll,held.isEmpty_eq,List.isEmpty_cons,if_neg Bool.false_ne_true,head]
  case slots => split <;> rfl

theorem peek (held : r.Holds xs) : r.peek = xs.head? := by
  rw [Ring.peek,held.isEmpty_eq]
  cases xs with
  | nil => rfl
  | cons x xs => exact congrArg some (held.slots 0 (Nat.succ_pos _))

theorem element (held : r.Holds xs) (index : Nat) :
    r.element index = match xs[index]? with
      | some x => .ok x
      | none => .error (.indexOutOfRange index xs.length) := by
  rw [Ring.element,held.size_eq]
  by_cases inside : index < xs.length
  · rw [if_neg (by omega),List.getElem?_eq_getElem inside,held.slots index inside]
  · rw [if_pos (by omega),List.getElem?_eq_none (by omega)]

/-- Writing the element of an index changes that element only. -/
theorem written (held : r.Holds xs) {index : Nat} (inside : index < xs.length) (value : α) :
    Holds { r with slots := r.slots.setIfInBounds (r.place index) value } (xs.set index value) := by
  have fits := held.fits
  refine held.resliced Array.size_setIfInBounds rfl rfl held.first ?_ ?_ ?_ ?_
  all_goals simp only [List.length_set]
  · exact held.last
  · exact held.full
  · exact fits
  · intro i within
    rw [place,held.place_eq,getD_written _ _ _ _ (held.place_lt index),List.getElem_set]
    by_cases same : index = i
    · rw [if_pos (by rw [same]),if_pos same]
    · rw [if_neg (place_ne r.first (by omega) (by omega) same),if_neg same,← held.slots i within,slot_eq,
        held.place_eq]

theorem setElement (held : r.Holds xs) {index : Nat} (inside : index < xs.length) (value : α) :
    ∃ next, r.setElement index value = .ok next ∧ next.Holds (xs.set index value) :=
  ⟨_,if_neg (by rw [held.size_eq]; omega),held.written inside value⟩

theorem setElement_error (held : r.Holds xs) {index : Nat} (outside : xs.length ≤ index) (value : α) :
    r.setElement index value = .error (.indexOutOfRange index xs.length) := by
  rw [Ring.setElement,held.size_eq,if_pos outside]

theorem setPeek_nil (held : r.Holds []) (value : α) : r.setPeek value = none := by
  rw [Ring.setPeek,held.isEmpty_eq,List.isEmpty_nil,if_pos rfl]

theorem setPeek_cons (held : r.Holds (x :: xs)) (value : α) :
    ∃ next, r.setPeek value = some next ∧ next.Holds (value :: xs) := by
  have place : r.place 0 = r.first := by
    rw [Ring.place,held.place_eq,Nat.add_zero,Nat.mod_eq_of_lt held.first]
  refine ⟨_,?_,held.written (Nat.succ_pos _ : 0 < (x :: xs).length) value⟩
  rw [Ring.setPeek,held.isEmpty_eq,List.isEmpty_cons,if_neg Bool.false_ne_true,place]

end Holds

theorem create_ok {allocation : Allocation} {requested : UInt64} {r : Ring α}
    (created : create allocation requested = .ok r) :
    ∃ capacity k, capacity = 2^k ∧ minimumCapacity.toNat ≤ capacity ∧ capacity ≤ 2^63 ∧
      r = vacant capacity capacity := by
  rw [create,normalize] at created
  split at created
  · cases created
  next small =>
    have bounded : (max requested minimumCapacity).toNat ≤ 2^63 :=
      UInt64.le_iff_toNat_le.mp (UInt64.not_lt.mp small)
    obtain ⟨k,power,enough⟩ := doubleUntil_pow bounded 64 0 1 (by omega) (by omega) rfl
    have least : minimumCapacity.toNat ≤ (max requested minimumCapacity).toNat := by
      change _ ≤ (if requested ≤ minimumCapacity then minimumCapacity else requested).toNat
      split
      · exact Nat.le_refl _
      · rename_i more
        exact Nat.le_of_lt (Nat.lt_of_not_le fun less => more (UInt64.le_iff_toNat_le.mpr less))
    simp only [bind,Except.bind] at created
    split at created
    · cases created
    · cases created
      have inside : 2^k < 2^64 := power ▸ UInt64.toNat_lt _
      have largest : 2^k ≤ 2^63 := Nat.pow_le_pow_right (by omega)
        (Nat.le_of_lt_succ ((Nat.pow_lt_pow_iff_right (by omega)).mp inside))
      exact ⟨_,k,power,power.symm ▸ least.trans enough,power.symm ▸ largest,rfl⟩

theorem create_holds {allocation : Allocation} {requested : UInt64} {r : Ring α}
    (created : create allocation requested = .ok r) : r.Holds [] := by
  obtain ⟨capacity,k,power,-,-,rfl⟩ := create_ok created
  exact .vacant ⟨k,power⟩

end SessionPipeline.Ring
