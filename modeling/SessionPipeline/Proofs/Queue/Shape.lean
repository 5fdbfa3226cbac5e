import SessionPipeline.Proofs.Queue.Fifo

/-! The shape of a ring between two operations: how large its array is, when it is marked to shrink and
what stands in the slots outside its window. A poll goes through a ring that has lost its head but has
not looked for a smaller array yet, so the invariant comes in two halves. -/
namespace SessionPipeline.Ring

theorem doubleUntil_lt {requested : UInt64} (small : requested.toNat ≤ 2^63) (fuel : Nat)
    (actual : UInt64) :
    doubleUntil requested fuel actual = actual ∨
      (doubleUntil requested fuel actual).toNat < 2*requested.toNat := by
  induction fuel generalizing actual with
  | zero => exact .inl rfl
  | succ fuel ih =>
    by_cases less : actual < requested
    · rw [doubleUntil,if_pos less]
      have below := UInt64.lt_iff_toNat_lt.mp less
      have doubled := doubled_toNat (below.trans_le small)
      rcases ih (actual <<< 1) with same | fits
      · rw [same,doubled]
        exact .inr (by omega)
      · exact .inr fits
    · rw [doubleUntil,if_neg less]
      exact .inl rfl

theorem shrunkCapacity_zero : shrunkCapacity 0 = 1 := by decide

theorem shrunkCapacity_of_pow {count k : Nat} (power : count = 2^k) (small : count < 2^63) :
    shrunkCapacity count = 2*count := by
  have same : count.toUInt64.toNat = count := by simp; omega
  have low : count.toUInt64.toNat ≤ 2^63 := by omega
  obtain ⟨m,fitting,enough⟩ := doubleUntil_pow low 64 0 1 (by omega) (by omega) rfl
  have fits : 2^m = count := by
    have positive := Nat.two_pow_pos k
    rcases doubleUntil_lt low 64 1 with one | less
    · rw [one,UInt64.toNat_one] at fitting
      omega
    · rw [fitting,same,power,Nat.mul_comm,← Nat.pow_succ] at less
      rw [same,power] at enough
      have upper := (Nat.pow_lt_pow_iff_right (by omega)).mp less
      have lower := (Nat.pow_le_pow_iff_right (by omega)).mp enough
      rw [show m = k by omega,power]
  rw [shrunkCapacity,fitting,fits,beq_self_eq_true,if_pos rfl]

variable {α : Type} [Inhabited α]

/-- Every slot outside the window is vacant. -/
def Clean (r : Ring α) (count : Nat) : Prop :=
  ∀ place, (∀ i < count, (r.first + i) % r.capacity ≠ place) → r.slots.getD place default = default

/-- What holds of a ring at any time, also in the middle of a poll. -/
structure Sized (r : Ring α) (xs : List α) : Prop where
  held : r.Holds xs
  minimum : 4 ≤ r.initialCapacity
  clean : r.Clean xs.length
  marked : r.shrinkThreshold = 0 ∨
    r.shrinkThreshold = r.capacity/8 ∧ r.initialCapacity < r.capacity/8
  reached : r.shrinkThreshold ≤ xs.length

/-- What holds of a ring between two operations. -/
structure Trim (r : Ring α) (xs : List α) : Prop extends Sized r xs where
  above : r.shrinkThreshold = 0 ∨ r.shrinkThreshold < xs.length
  drained : xs = [] → r.first = 0 ∧ r.capacity = r.initialCapacity

/-- What becomes of a ring of `count` elements when a smaller array is considered. -/
inductive Shrunk (r : Ring α) (count : Nat) : Ring α → Prop
  | above (more : r.shrinkThreshold < count) : Shrunk r count r
  | least (none : count = 0) (unmarked : r.shrinkThreshold = 0)
      (least : r.capacity = r.initialCapacity) : Shrunk r count r
  | drained (none : count = 0) (unmarked : r.shrinkThreshold = 0)
      (larger : r.initialCapacity < r.capacity) :
      Shrunk r count { r.repack r.initialCapacity 0 with shrinkThreshold := 0 }
  | quartered (due : count = r.shrinkThreshold) (marked : r.shrinkThreshold = r.capacity/8)
      (larger : r.initialCapacity < r.capacity/8) :
      Shrunk r count { r.repack (2*count) count with shrinkThreshold := 0 }

namespace Sized

variable {r : Ring α} {xs : List α} {x : α}

theorem eighth_pow (sized : r.Sized xs) (marked : r.initialCapacity < r.capacity/8) :
    ∃ k, r.capacity/8 = 2^k := by
  obtain ⟨k,power⟩ := sized.held.capacity
  have minimum := sized.minimum
  by_cases low : k < 3
  · have := Nat.pow_lt_pow_right (show 1 < 2 by omega) low
    omega
  · refine ⟨k-3,?_⟩
    rw [power,show 8 = 2^3 by rfl,Nat.pow_div (by omega) (by omega)]

theorem shrunk (sized : r.Sized xs) (small : r.capacity ≤ 2^63) :
    r.Shrunk xs.length r.shrink := by
  have minimum := sized.minimum
  have least := sized.held.least
  have reached := sized.reached
  rw [Ring.shrink,sized.held.size_eq]
  by_cases more : r.shrinkThreshold < xs.length
  · simp only [gt_iff_lt,more,decide_true,Bool.true_or,if_true]
    exact .above more
  have due : xs.length = r.shrinkThreshold := by omega
  rcases sized.marked with unmarked | ⟨marked,larger⟩
  · -- An unmarked ring shrinks when it is drained.
    have none : xs.length = 0 := by omega
    simp only [none,shrunkCapacity_zero,unmarked,gt_iff_lt,Nat.lt_irrefl,decide_false,Bool.false_or,
      ge_iff_le,decide_eq_true_eq]
    rw [if_neg (by omega)]
    by_cases same : r.capacity = r.initialCapacity
    · rw [if_pos (by simp; omega)]
      exact .least rfl unmarked same
    · rw [if_neg (by simp [same]),max_eq_right (by omega)]
      exact .drained rfl unmarked (by omega)
  · obtain ⟨k,power⟩ := sized.eighth_pow larger
    have fitting : shrunkCapacity xs.length = 2*xs.length :=
      shrunkCapacity_of_pow (by omega : xs.length = 2^k) (by omega)
    simp only [fitting]
    rw [if_neg (by simp; omega),if_neg (by simp; omega),max_eq_left (by omega)]
    exact .quartered due marked larger

end Sized

theorem clean_vacant (initial capacity : Nat) : (vacant initial capacity : Ring α).Clean 0 := by
  intro place _
  simp only [vacant,Array.getD_eq_getD_getElem?,Array.getElem?_replicate]
  split <;> rfl

theorem clean_repack (r : Ring α) {capacity count : Nat} (room : count ≤ capacity) :
    (r.repack capacity count).Clean count := by
  intro place outside
  have behind : count ≤ place := by
    by_contra inside
    have placed := outside place (by omega)
    rw [r.capacity_repack room] at placed
    exact placed (by rw [repack,Nat.zero_add,Nat.mod_eq_of_lt (by omega)])
  simp only [repack,Array.getD_eq_getD_getElem?]
  rw [Array.getElem?_append_right (by simpa using behind),Array.getElem?_replicate]
  split <;> rfl

/-- A slot is written and the window moves: nothing may be left outside the new one. -/
theorem Clean.moved {r q : Ring α} {count more : Nat} {value : α} (clean : r.Clean count) (place : Nat)
    (slots : q.slots = r.slots.setIfInBounds place value) (placed : place < r.capacity)
    (vacated : (∀ i < more, (q.first + i) % r.capacity ≠ place) → value = default)
    (covered : ∀ other ≠ place, (∀ i < more, (q.first + i) % r.capacity ≠ other) →
      ∀ i < count, (r.first + i) % r.capacity ≠ other) : q.Clean more := by
  intro other outside
  have size : q.capacity = r.capacity := by rw [Ring.capacity,slots,Array.size_setIfInBounds,Ring.capacity]
  rw [size] at outside
  rw [slots,getD_written _ _ _ _ placed]
  split
  · rename_i same
    exact vacated (same ▸ outside)
  · rename_i differ
    exact clean other (covered other (Ne.symm differ) outside)

namespace Sized

variable {r : Ring α} {xs : List α} {x : α}

theorem trim (sized : r.Sized xs) (start : xs = [] → r.first = 0) (small : r.capacity ≤ 2^63)
    (few : xs.length < 2^63) : r.shrink.Trim xs := by
  have cases := sized.shrunk small
  have held := sized.held.shrink few
  have fits := sized.held.fits
  generalize r.shrink = s at cases held
  cases cases with
  | above more => exact ⟨sized,.inr more,fun none => by simp [none] at more⟩
  | least none unmarked least => exact ⟨sized,.inl unmarked,fun none => ⟨start none,least⟩⟩
  | drained none unmarked larger =>
    obtain rfl := List.length_eq_zero_iff.mp none
    exact ⟨⟨held,sized.minimum,r.clean_repack (Nat.zero_le _),.inl rfl,Nat.zero_le _⟩,.inl rfl,
      fun _ => ⟨rfl,r.capacity_repack (Nat.zero_le _)⟩⟩
  | quartered due marked larger =>
    refine ⟨⟨held,sized.minimum,r.clean_repack (by omega),.inl rfl,Nat.zero_le _⟩,.inl rfl,fun none => ?_⟩
    rw [none,List.length_nil] at due
    omega

end Sized

/-- What a poll leaves before a smaller array is considered. -/
def beheaded (r : Ring α) : Ring α :=
  let first := (r.first + 1) &&& r.mask
  let rest : Ring α := { r with slots := r.slots.setIfInBounds r.first default, full := false,
                                first := first, changes := r.changes + 1 }
  if first == r.last then { rest with first := 0, last := 0 } else rest

theorem poll_eq {r : Ring α} (occupied : r.isEmpty = false) :
    r.poll = some (r.slot 0,r.beheaded.shrink) := by
  rw [Ring.poll,occupied,if_neg Bool.false_ne_true]
  rfl

theorem beheaded_marks (r : Ring α) :
    r.beheaded.slots = r.slots.setIfInBounds r.first default ∧
      r.beheaded.initialCapacity = r.initialCapacity ∧
      r.beheaded.shrinkThreshold = r.shrinkThreshold ∧ r.beheaded.capacity = r.capacity := by
  simp only [beheaded,Ring.capacity]
  split <;> simp

namespace Holds

variable {r : Ring α} {xs : List α}

theorem expand_room (held : r.Holds xs) (room : xs.length < r.capacity) : r.expand = r := by
  rw [Ring.expand,if_neg fun whole => room.ne (held.full.mp whole)]

theorem beheaded_first {x : α} (held : r.Holds (x :: xs)) :
    r.beheaded.first = if xs = [] then 0 else (r.first + 1) % r.capacity := by
  have moved : (r.first + 1) &&& r.mask = (r.first + 1) % r.capacity := held.place_eq 1
  have inside : (r.first + 1) % r.capacity < r.capacity := Nat.mod_lt _ held.positive
  have last : r.last = ((r.first + 1) % r.capacity + xs.length) % r.capacity := by
    rw [held.last,List.length_cons,Nat.mod_add_mod,Nat.add_assoc,Nat.add_comm 1]
  rw [beheaded,moved,last]
  by_cases none : xs = []
  · simp [none]
  · have apart := first_ne inside (List.length_pos_iff.mpr none) held.fits
    rw [if_neg none,if_neg (beq_iff_eq.not.mpr apart)]

theorem expand_full (held : r.Holds xs) (whole : xs.length = r.capacity) :
    r.expand = { r.repack (2*r.capacity) r.capacity with
      shrinkThreshold := if r.initialCapacity < 2*r.capacity/8 then 2*r.capacity/8
        else r.shrinkThreshold } := by
  rw [Ring.expand,if_pos (held.full.mpr whole)]
  dsimp only
  split <;> rfl

end Holds

namespace Trim

variable {r : Ring α} {xs : List α} {x : α}

theorem expand (trim : r.Trim xs) : r.expand.Sized xs := by
  have fits := trim.held.fits
  have minimum := trim.minimum
  have held := trim.held.expand.1
  by_cases whole : xs.length = r.capacity
  · rw [trim.held.expand_full whole] at held ⊢
    have clean : (r.repack (2*r.capacity) r.capacity).Clean xs.length := by
      rw [whole]
      exact r.clean_repack (by omega)
    have size := r.capacity_repack (show r.capacity ≤ 2*r.capacity by omega)
    have least := trim.held.least
    refine ⟨held,trim.minimum,clean,?_,?_⟩
    · change _ ∨ _ = (r.repack _ _).capacity/8 ∧ _ < (r.repack _ _).capacity/8
      rw [size]
      have marked := trim.marked
      dsimp only [repack]
      split <;> omega
    · dsimp only
      split <;> [omega; exact trim.reached]
  · rw [trim.held.expand_room (by omega)]
    exact trim.toSized

theorem offer (trim : r.Trim xs) (x : α) : (r.offer x).Trim (xs ++ [x]) := by
  have sized := trim.expand
  have room := trim.held.expand.2
  have reached := sized.reached
  have length : (xs ++ [x]).length = xs.length + 1 := List.length_append
  have size : (r.offer x).capacity = r.expand.capacity := Array.size_setIfInBounds
  refine ⟨⟨trim.held.offer x,sized.minimum,?_,?_,?_⟩,?_,?_⟩
  · rw [length]
    refine sized.clean.moved r.expand.last rfl ?_ ?_ ?_
    · rw [sized.held.last]
      exact Nat.mod_lt _ sized.held.positive
    · exact fun outside => absurd sized.held.last.symm (outside xs.length (by omega))
    · exact fun other _ outside i inside => outside i (by omega)
  · rw [size]
    exact sized.marked
  · rw [length]
    exact Nat.le_succ_of_le reached
  · rw [length]
    exact .inr (Nat.lt_succ_of_le reached)
  · simp

theorem beheaded (trim : r.Trim (x :: xs)) : r.beheaded.Sized xs := by
  have held : r.beheaded.Holds xs := trim.held.behead (r.changes+1)
  obtain ⟨slots,initial,threshold,capacity⟩ := r.beheaded_marks
  refine ⟨held,initial ▸ trim.minimum,?_,?_,?_⟩
  · refine trim.clean.moved r.first slots trim.held.first (fun _ => rfl) fun other differ outside i inside => ?_
    rw [List.length_cons] at inside
    cases i with
    | zero =>
      rw [Nat.add_zero,Nat.mod_eq_of_lt trim.held.first]
      exact differ.symm
    | succ i =>
      have some : xs ≠ [] := List.length_pos_iff.mp (by omega)
      have apart := outside i (by omega)
      rwa [trim.held.beheaded_first,if_neg some,Nat.mod_add_mod,Nat.add_assoc,Nat.add_comm 1] at apart
  · rw [threshold,initial,capacity]
    exact trim.marked
  · rw [threshold]
    have above := trim.above
    rw [List.length_cons] at above
    omega

theorem poll (trim : r.Trim (x :: xs)) (small : r.capacity ≤ 2^63) :
    r.poll = some (x,r.beheaded.shrink) ∧ r.beheaded.shrink.Trim xs := by
  have head : r.slot 0 = x := trim.held.slots 0 (Nat.succ_pos _)
  constructor
  · rw [poll_eq trim.held.isEmpty_eq,head]
  · refine trim.beheaded.trim (fun none => ?_) ?_ (trim.held.fits.trans small)
    · rw [trim.held.beheaded_first,if_pos none]
    · rwa [r.beheaded_marks.2.2.2]

theorem clear (trim : r.Trim xs) : r.clear.Trim [] := by
  have clean : r.clear.Clean 0 := clean_vacant r.initialCapacity r.initialCapacity
  exact ⟨⟨trim.held.clear,trim.minimum,clean,.inl rfl,Nat.zero_le _⟩,.inl rfl,
    fun _ => ⟨rfl,capacity_vacant r.initialCapacity r.initialCapacity⟩⟩

theorem write (trim : r.Trim xs) (index : Nat) (inside : index < xs.length) (value : α) :
    Trim { r with slots := r.slots.setIfInBounds (r.place index) value } (xs.set index value) := by
  have size : (r.slots.setIfInBounds (r.place index) value).size = r.slots.size :=
    Array.size_setIfInBounds
  have place : r.place index = (r.first + index) % r.capacity := trim.held.place_eq index
  refine ⟨⟨trim.held.written inside value,trim.minimum,?_,?_,?_⟩,?_,?_⟩
  · rw [List.length_set]
    refine trim.clean.moved (r.place index) rfl ?_ ?_ fun _ _ outside => outside
    · rw [place]
      exact trim.held.place_lt index
    · exact fun outside => absurd place.symm (outside index inside)
  · simpa only [Ring.capacity,size] using trim.marked
  · rw [List.length_set]
    exact trim.reached
  · rw [List.length_set]
    exact trim.above
  · intro none
    have length := congrArg List.length none
    rw [List.length_set,List.length_nil] at length
    omega

theorem apply (trim : r.Trim xs) (small : r.capacity ≤ 2^63) (operation : Fifo.Operation α) :
    (r.apply operation).2.Trim (Fifo.apply xs operation).2 := by
  cases operation with
  | offer value => exact trim.offer value
  | poll =>
    cases xs with
    | nil =>
      rw [Ring.apply,trim.held.poll_nil]
      exact trim
    | cons x xs =>
      obtain ⟨polled,rest⟩ := trim.poll small
      rw [Ring.apply,polled]
      exact rest
  | assignHead value =>
    cases xs with
    | nil =>
      rw [Ring.apply,trim.held.setPeek_nil]
      exact trim
    | cons x xs =>
      have place : r.place 0 = r.first := by
        rw [Ring.place,trim.held.place_eq,Nat.add_zero,Nat.mod_eq_of_lt trim.held.first]
      have next := trim.write 0 (Nat.succ_pos _) value
      rw [place] at next
      rw [Ring.apply,setPeek,trim.held.isEmpty_eq,List.isEmpty_cons,if_neg Bool.false_ne_true]
      exact next
  | assignElement index value =>
    by_cases inside : index < xs.length
    · rw [Ring.apply,setElement,trim.held.size_eq,if_neg (by omega),Fifo.apply,if_pos inside]
      exact trim.write index inside value
    · rw [Ring.apply,trim.held.setElement_error (Nat.le_of_not_lt inside),Fifo.apply,if_neg inside]
      exact trim
  | clear => exact trim.clear
  | peek => exact trim
  | element index => exact trim
  | size => exact trim
  | isEmpty => exact trim

end Trim

theorem create_trim {allocation : Allocation} {requested : UInt64} {r : Ring α}
    (created : create allocation requested = .ok r) : r.Trim [] := by
  have held := create_holds created
  obtain ⟨capacity,k,power,least,-,rfl⟩ := create_ok created
  exact ⟨⟨held,least,clean_vacant _ _,.inl rfl,Nat.zero_le _⟩,.inl rfl,
    fun _ => ⟨rfl,capacity_vacant capacity capacity⟩⟩

/-- What can be seen of a ring between two operations. -/
structure Shaped (r : Ring α) : Prop where
  minimum : 4 ≤ r.initialCapacity
  initial : ∃ k, r.initialCapacity = 2^k
  capacity : ∃ k, r.capacity = r.initialCapacity * 2^k
  power : ∃ k, r.capacity = 2^k
  mask : r.mask = r.capacity - 1
  first : r.first < r.capacity
  last : r.last < r.capacity
  full : r.full = true → r.first = r.last
  threshold : r.shrinkThreshold = 0 ∨ r.shrinkThreshold = r.capacity/8 ∧
    r.initialCapacity < r.capacity/8 ∧ r.shrinkThreshold < r.size
  empty : r.isEmpty = true → r.first = 0 ∧ r.last = 0 ∧ r.capacity = r.initialCapacity ∧
    r.shrinkThreshold = 0
  vacant : ∀ place < r.capacity, (∀ i < r.size, (r.first + i) % r.capacity ≠ place) →
    r.slots[place]? = some default

theorem Trim.shaped {r : Ring α} {xs : List α} (trim : r.Trim xs) : r.Shaped where
  minimum := trim.minimum
  initial := trim.held.initial
  capacity := by
    obtain ⟨k,power⟩ := trim.held.capacity
    obtain ⟨j,initial⟩ := trim.held.initial
    have least := trim.held.least
    rw [power,initial] at least ⊢
    have below := (Nat.pow_le_pow_iff_right (by omega)).mp least
    exact ⟨k-j,by rw [← Nat.pow_add,Nat.add_sub_cancel' below]⟩
  power := trim.held.capacity
  mask := trim.held.mask
  first := trim.held.first
  last := trim.held.last ▸ Nat.mod_lt _ trim.held.positive
  full whole := by
    rw [trim.held.last,trim.held.full.mp whole,Nat.add_mod_right,Nat.mod_eq_of_lt trim.held.first]
  threshold := by
    have marked := trim.marked
    have above := trim.above
    rw [trim.held.size_eq]
    omega
  empty none := by
    rw [trim.held.isEmpty_eq,List.isEmpty_iff] at none
    subst none
    obtain ⟨first,capacity⟩ := trim.drained rfl
    have last := trim.held.last
    rw [List.length_nil,first,Nat.zero_mod] at last
    exact ⟨first,last,capacity,Nat.le_zero.mp trim.reached⟩
  vacant place inside outside := by
    rw [trim.held.size_eq] at outside
    have clean := trim.clean place outside
    rw [Array.getD_eq_getD_getElem?] at clean
    rw [Array.getElem?_eq_getElem inside] at clean ⊢
    exact congrArg some clean

/-- Whether an operation changes the structure of a ring: offers, polls that find an element and clearing. -/
def structural (r : Ring α) : Fifo.Operation α → Bool
  | .offer _ => true
  | .poll => !r.isEmpty
  | .clear => true
  | _ => false

/-- Any other operation rewrites an element at most. -/
theorem apply_unstructural {r : Ring α} {operation : Fifo.Operation α}
    (plain : r.structural operation = false) :
    ∃ slots, slots.size = r.slots.size ∧ (r.apply operation).2 = { r with slots := slots } := by
  cases operation with
  | offer value => cases plain
  | clear => cases plain
  | poll =>
    have empty : r.isEmpty = true := by simpa [structural] using plain
    exact ⟨r.slots,rfl,by rw [Ring.apply,Ring.poll,empty,if_pos rfl]⟩
  | assignHead value =>
    by_cases empty : r.isEmpty = true
    · exact ⟨r.slots,rfl,by rw [Ring.apply,setPeek,if_pos empty]⟩
    · exact ⟨_,Array.size_setIfInBounds,by rw [Ring.apply,setPeek,if_neg empty]⟩
  | assignElement index value =>
    by_cases outside : index ≥ r.size
    · exact ⟨r.slots,rfl,by rw [Ring.apply,setElement,if_pos outside]⟩
    · exact ⟨_,Array.size_setIfInBounds,by rw [Ring.apply,setElement,if_neg outside]⟩
  | peek => exact ⟨r.slots,rfl,rfl⟩
  | element index => exact ⟨r.slots,rfl,rfl⟩
  | size => exact ⟨r.slots,rfl,rfl⟩
  | isEmpty => exact ⟨r.slots,rfl,rfl⟩

/-- What a structural operation leaves. -/
theorem apply_structural {r : Ring α} {operation : Fifo.Operation α}
    (changes : r.structural operation = true) :
    (∃ value, operation = .offer value ∧ (r.apply operation).2 = r.offer value) ∨
      (operation = .poll ∧ r.isEmpty = false ∧ (r.apply operation).2 = r.beheaded.shrink) ∨
      operation = .clear ∧ (r.apply operation).2 = r.clear := by
  cases operation with
  | offer value => exact .inl ⟨value,rfl,rfl⟩
  | poll =>
    have occupied : r.isEmpty = false := by simpa [structural] using changes
    exact .inr (.inl ⟨rfl,occupied,by rw [Ring.apply,poll_eq occupied]⟩)
  | clear => exact .inr (.inr ⟨rfl,rfl⟩)
  | _ => cases changes

/-- How many of the operations are structural changes. -/
def alterations (r : Ring α) : List (Fifo.Operation α) → Nat
  | [] => 0
  | operation :: rest => (r.structural operation).toNat + alterations (r.apply operation).2 rest

theorem alterations_append (r : Ring α) (operations more : List (Fifo.Operation α)) :
    r.alterations (operations ++ more) =
      r.alterations operations + (Fifo.replay Ring.apply r operations).2.alterations more := by
  induction operations generalizing r with
  | nil => simp [alterations,Fifo.replay]
  | cons operation rest ih =>
    rw [List.cons_append,alterations,alterations,ih,Nat.add_assoc]
    rfl

theorem alterations_le (r : Ring α) (operations : List (Fifo.Operation α)) :
    r.alterations operations ≤ operations.length := by
  induction operations generalizing r with
  | nil => exact Nat.le_refl 0
  | cons operation rest ih =>
    have later := ih (r.apply operation).2
    have once := Bool.toNat_le (r.structural operation)
    rw [alterations,List.length_cons]
    omega

theorem apply_initial (r : Ring α) (operation : Fifo.Operation α) :
    (r.apply operation).2.initialCapacity = r.initialCapacity := by
  cases changes : r.structural operation with
  | false =>
    obtain ⟨slots,-,same⟩ := apply_unstructural changes
    rw [same]
  | true =>
    obtain ⟨value,-,next⟩ | ⟨-,-,next⟩ | ⟨-,next⟩ := apply_structural changes
    · rw [next]
      simp only [Ring.offer,Ring.expand]
      split
      · split <;> rfl
      · rfl
    · rw [next,← r.beheaded_marks.2.1]
      simp only [Ring.shrink]
      split
      · rfl
      · split <;> rfl
    · rw [next]
      rfl

theorem replay_trim {allocation : Allocation} {requested : UInt64} {r : Ring α}
    (created : create allocation requested = .ok r) {operations : List (Fifo.Operation α)}
    (small : ∀ before ∈ operations.inits, (Fifo.replay apply r before).2.capacity ≤ 2^63) :
    ∃ xs, (Fifo.replay apply r operations).2.Trim xs ∧
      (Fifo.replay apply r operations).2.initialCapacity = r.initialCapacity :=
  ⟨_,(Fifo.replay_related
    (fun (s : Ring α) xs => s.Trim xs ∧ s.initialCapacity = r.initialCapacity) (·.capacity ≤ 2^63)
    (fun s _ operation known small => ⟨(known.1.held.apply small operation).1,
      known.1.apply small operation,(s.apply_initial operation).trans known.2⟩)
    ⟨create_trim created,rfl⟩ small).2⟩

/-- Whatever is done to a ring, it keeps its shape and the capacity that it shrinks back to. -/
theorem reachable_shaped {allocation : Allocation} {requested : UInt64} {r : Ring α}
    (created : create allocation requested = .ok r) (operations : List (Fifo.Operation α))
    (small : ∀ before ∈ operations.inits, (Fifo.replay apply r before).2.capacity ≤ 2^63) :
    (Fifo.replay apply r operations).2.Shaped ∧
      (Fifo.replay apply r operations).2.initialCapacity = r.initialCapacity := by
  obtain ⟨_,trim,initial⟩ := replay_trim created small
  exact ⟨trim.shaped,initial⟩

/-- A ring that has grown three times is marked to shrink, and polls move its head. -/
theorem reachable_shaped_marked :
    let r : Ring Nat := (Fifo.replay apply (vacant 4 4)
      ((List.range 33).map .offer ++ [.poll,.assignHead 7,.assignElement 3 9,.poll])).2
    r.Shaped ∧ r.initialCapacity = 4 ∧ r.capacity = 64 ∧ r.shrinkThreshold = 8 ∧ r.first = 2 := by
  have created : create .unlimited 3 = .ok (vacant 4 4 : Ring Nat) := rfl
  intro r
  obtain ⟨shaped,initial⟩ := reachable_shaped created
    ((List.range 33).map .offer ++ [.poll,.assignHead 7,.assignElement 3 9,.poll]) (by decide +kernel)
  exact ⟨shaped,initial,by decide +kernel⟩

end SessionPipeline.Ring
