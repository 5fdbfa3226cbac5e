import SessionPipeline.Proofs.Queue.Shape

/-! How often the array of a ring is replaced. Its leeway is what it takes to the next replacement: an
operation uses up one of it at most, nothing is replaced while some is left, and each replacement leaves
enough of it for a share of the new capacity. -/
namespace SessionPipeline.Ring

open Fifo

variable {α : Type} [Inhabited α]

/-- How many structural changes at least leave the capacity as it is. -/
def leeway (r : Ring α) : Nat :=
  min (r.capacity - r.size)
    (if r.capacity = r.initialCapacity then r.capacity else r.size - r.shrinkThreshold - 1)

/-- What an offer or a poll that finds an element does to size, capacity and threshold. -/
inductive Shift (r s : Ring α) : Prop
  | longer (size : s.size = r.size + 1) (capacity : s.capacity = r.capacity)
      (threshold : s.shrinkThreshold = r.shrinkThreshold)
  | shorter (size : r.size = s.size + 1) (capacity : s.capacity = r.capacity)
      (threshold : s.shrinkThreshold = r.shrinkThreshold)
  | doubled (full : r.size = r.capacity) (size : s.size = r.size + 1)
      (capacity : s.capacity = 2*r.capacity) (threshold : s.shrinkThreshold ≤ s.capacity/8)
  | quartered (size : r.size = s.size + 1) (due : s.size = r.shrinkThreshold)
      (larger : r.initialCapacity < r.shrinkThreshold) (capacity : s.capacity = 2*s.size)
      (threshold : s.shrinkThreshold = 0)
  | drained (size : r.size = 1) (none : s.size = 0) (unmarked : r.shrinkThreshold = 0)
      (capacity : s.capacity = r.initialCapacity) (threshold : s.shrinkThreshold = 0)

theorem Trim.shift {r : Ring α} {xs : List α} (trim : r.Trim xs) (small : r.capacity ≤ 2^63)
    {operation : Operation α} (changes : r.structural operation = true)
    (keeps : operation ≠ .clear) : r.Shift (r.apply operation).2 := by
  have size := trim.held.size_eq
  have next := trim.apply small operation
  have after := next.held.size_eq
  obtain ⟨value,rfl,offered⟩ | ⟨rfl,occupied,polled⟩ | ⟨cleared,-⟩ := apply_structural changes
  · have longer : (r.offer value).size = r.size + 1 := by
      rw [size,← List.length_singleton,← List.length_append]
      exact after
    have capacity : (r.offer value).capacity = r.expand.capacity := Array.size_setIfInBounds
    rw [offered]
    by_cases whole : xs.length = r.capacity
    · have doubled : r.expand.capacity = 2*r.capacity := by
        rw [trim.held.expand_full whole]
        exact r.capacity_repack (by omega)
      refine .doubled (size.trans whole) longer (capacity.trans doubled) ?_
      rcases next.marked with unmarked | ⟨marked,-⟩
      · exact unmarked.le.trans (Nat.zero_le _)
      · exact marked.le
    · have same : r.expand = r := trim.held.expand_room (by have := trim.held.fits; omega)
      exact .longer longer (by rw [capacity,same]) (by rw [Ring.offer,same])
  · rw [polled] at after ⊢
    rw [trim.held.isEmpty_eq] at occupied
    obtain ⟨x,rest,rfl⟩ := List.exists_cons_of_ne_nil (List.isEmpty_eq_false_iff.mp occupied)
    have left : r.beheaded.shrink.size = rest.length := after
    obtain ⟨slots,initial,threshold,capacity⟩ := r.beheaded_marks
    have cases := trim.beheaded.shrunk (capacity ▸ small)
    rw [List.length_cons] at size
    generalize r.beheaded.shrink = s at cases left
    cases cases with
    | above more => exact .shorter (by omega) capacity threshold
    | least none unmarked least => exact .shorter (by omega) capacity threshold
    | drained none unmarked larger =>
      refine .drained (by omega) (by omega) (threshold ▸ unmarked) ?_ rfl
      exact (r.beheaded.capacity_repack (Nat.zero_le _)).trans initial
    | quartered due marked larger =>
      refine .quartered (by omega) (by omega) (by omega) ?_ rfl
      rw [left]
      exact r.beheaded.capacity_repack (by omega)
  · exact absurd cleared keeps

omit [Inhabited α] in
theorem Shift.leeway_le {r s : Ring α} (shift : r.Shift s)
    (initial : s.initialCapacity = r.initialCapacity) (same : s.capacity = r.capacity) :
    r.leeway ≤ s.leeway + 1 := by
  unfold leeway
  rw [initial,same]
  cases shift with
  | longer size capacity threshold => split <;> omega
  | shorter size capacity threshold => split <;> omega
  | doubled full size capacity threshold => split <;> omega
  | quartered size due larger capacity threshold => split <;> omega
  | drained size none unmarked capacity threshold => split <;> omega

omit [Inhabited α] in
/-- The capacity changes when no leeway is left. -/
theorem Shift.leeway_eq_zero {r s : Ring α} (shift : r.Shift s) (change : s.capacity ≠ r.capacity) :
    r.leeway = 0 := by
  unfold leeway
  cases shift with
  | longer size capacity threshold => exact absurd capacity change
  | shorter size capacity threshold => exact absurd capacity change
  | doubled full size capacity threshold => omega
  | quartered size due larger capacity threshold => split <;> omega
  | drained size none unmarked capacity threshold => split <;> omega

omit [Inhabited α] in
theorem Shift.capacity_le {r s : Ring α} (shift : r.Shift s)
    (initial : s.initialCapacity = r.initialCapacity) (change : s.capacity ≠ r.capacity) :
    3*s.capacity ≤ 8*(s.leeway + 1) := by
  unfold leeway
  rw [initial]
  cases shift with
  | longer size capacity threshold => exact absurd capacity change
  | shorter size capacity threshold => exact absurd capacity change
  | doubled full size capacity threshold => split <;> omega
  | quartered size due larger capacity threshold => split <;> omega
  | drained size none unmarked capacity threshold => split <;> omega

/-- A change of the capacity takes more structural changes than there is leeway. -/
theorem Trim.leeway_lt {r : Ring α} {xs : List α} (trim : r.Trim xs) {operations : List (Operation α)}
    (small : ∀ before ∈ operations.inits, (replay Ring.apply r before).2.capacity ≤ 2^63)
    (keeps : ∀ operation ∈ operations, operation ≠ .clear)
    (change : (replay Ring.apply r operations).2.capacity ≠ r.capacity) :
    r.leeway < r.alterations operations := by
  induction operations generalizing r xs with
  | nil => exact absurd rfl change
  | cons operation rest ih =>
    rw [List.inits_cons,List.forall_mem_cons,List.forall_mem_map] at small
    rw [List.forall_mem_cons] at keeps
    have next := trim.apply small.1 operation
    have later := ih next small.2 keeps.2
    have initial := r.apply_initial operation
    change (replay Ring.apply (r.apply operation).2 rest).2.capacity ≠ r.capacity at change
    rw [alterations]
    cases changes : r.structural operation with
    | false =>
      obtain ⟨slots,size,same⟩ := apply_unstructural changes
      have capacity : (r.apply operation).2.capacity = r.capacity := by
        rw [same]
        exact size
      have leeway : (r.apply operation).2.leeway = r.leeway := by
        rw [same]
        unfold Ring.leeway Ring.size Ring.capacity
        rw [size]
      rw [Bool.toNat_false,Nat.zero_add,← leeway]
      exact later (capacity ▸ change)
    | true =>
      have shift := trim.shift small.1 changes keeps.1
      rw [Bool.toNat_true]
      by_cases same : (r.apply operation).2.capacity = r.capacity
      · have used := shift.leeway_le initial same
        have := later (same ▸ change)
        omega
      · have none := shift.leeway_eq_zero same
        omega

/-- Two changes of the capacity in a row, the first to `C`, are `3C/8` structural changes apart at least,
and at least as many operations. -/
theorem resizes_apart {allocation : Allocation} {requested : UInt64} {r : Ring α}
    (created : create allocation requested = .ok r)
    (before between : List (Operation α)) (first second : Operation α)
    (small : ∀ start ∈ (before ++ first :: (between ++ [second])).inits,
      (replay Ring.apply r start).2.capacity ≤ 2^63)
    (keeps : ∀ operation ∈ first :: (between ++ [second]), operation ≠ .clear) :
    let start := (replay Ring.apply r before).2
    let resized := (start.apply first).2
    let last := (replay Ring.apply resized between).2
    resized.capacity ≠ start.capacity → (last.apply second).2.capacity ≠ last.capacity →
      3*resized.capacity ≤ 8 * resized.alterations (between ++ [second]) ∧
        resized.alterations (between ++ [second]) ≤ between.length + 1 := by
  intro start resized last change again
  simp only [List.mem_inits] at small
  have within : ∀ more, more <+: first :: (between ++ [second]) →
      (replay Ring.apply start more).2.capacity ≤ 2^63 := by
    intro more front
    rw [← replay_append]
    exact small _ ((List.prefix_append_right_inj before).mpr front)
  have earlier : ∀ more ∈ before.inits, (replay Ring.apply r more).2.capacity ≤ 2^63 := fun more member =>
    small more ((List.mem_inits _ _).mp member |>.trans (List.prefix_append _ _))
  obtain ⟨_,trim,-⟩ := replay_trim created earlier
  have room : start.capacity ≤ 2^63 := within [] (List.nil_prefix)
  have next := trim.apply room first
  have changes : start.structural first = true := by
    cases plain : start.structural first with
    | true => rfl
    | false =>
      obtain ⟨slots,size,same⟩ := apply_unstructural plain
      exact absurd (congrArg Ring.capacity same |>.trans size) change
  rw [List.forall_mem_cons] at keeps
  have shift := trim.shift room changes keeps.1
  have fresh : 3*resized.capacity ≤ 8*(resized.leeway + 1) :=
    shift.capacity_le (start.apply_initial first) change
  have spent : resized.leeway < resized.alterations (between ++ [second]) := by
    have later : ∀ more, more <+: between ++ [second] →
        (replay Ring.apply resized more).2.capacity ≤ 2^63 := fun more front =>
      within (first :: more) (List.cons_prefix_cons.mpr ⟨rfl,front⟩)
    by_cases same : last.capacity = resized.capacity
    · refine next.leeway_lt (fun more member => later more ((List.mem_inits _ _).mp member)) keeps.2 ?_
      rw [replay_append]
      exact same ▸ again
    · have sooner : ∀ more ∈ between.inits, (replay Ring.apply resized more).2.capacity ≤ 2^63 :=
        fun more member => later more ((List.mem_inits _ _).mp member |>.trans (List.prefix_append _ _))
      have spent := next.leeway_lt sooner
        (fun operation member => keeps.2 operation (List.mem_append_left _ member)) same
      rw [alterations_append]
      exact Nat.lt_add_right _ spent
  refine ⟨by omega,?_⟩
  exact (alterations_le resized (between ++ [second])).trans_eq (by simp)

/-- A ring of four that has grown to 64 slots shrinks after 25 polls, one more than three eighths of 64. -/
theorem resizes_apart_marked :
    let before : List (Operation Nat) := (List.range 32).map .offer
    let between : List (Operation Nat) := List.replicate 24 .poll
    let resized := (replay Ring.apply (vacant 4 4) (before ++ [.offer 32])).2
    resized.capacity = 64 ∧ (replay Ring.apply resized (between ++ [.poll])).2.capacity = 16 ∧
      3*64 ≤ 8 * resized.alterations (between ++ [.poll]) ∧
      resized.alterations (between ++ [.poll]) ≤ 25 := by
  intro before between resized
  have grown : resized.capacity = 64 := by decide +kernel
  obtain ⟨apart,within⟩ := resizes_apart (show create .unlimited 3 = .ok (vacant 4 4 : Ring Nat) from rfl)
    before between (.offer 32) .poll (by decide +kernel) (by simp [between])
    (by decide +kernel) (by decide +kernel)
  have same : ((replay Ring.apply (vacant 4 4 : Ring Nat) before).2.apply (.offer 32)).2 = resized := rfl
  rw [same,grown] at apart
  exact ⟨grown,by decide +kernel,apart,within⟩

end SessionPipeline.Ring
