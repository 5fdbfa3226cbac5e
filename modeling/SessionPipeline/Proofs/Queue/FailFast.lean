import SessionPipeline.Proofs.Queue.Shape
import SessionPipeline.Queue.Cursor

/-! Cursors that fail fast. The change count of a ring is the number of its structural changes, so a cursor
answers as long as there was none since it was obtained and refuses ever after; a loop over a ring either
sees every element or fails at the end of the pass that changed the structure. -/
namespace SessionPipeline

open Fifo

variable {α σ : Type} [Inhabited α]

namespace Ring

theorem changes_shrink (r : Ring α) : r.shrink.changes = r.changes := by
  simp only [Ring.shrink]
  split
  · rfl
  · split <;> rfl

theorem changes_offer (r : Ring α) (x : α) : (r.offer x).changes = r.changes + 1 := by
  simp only [Ring.offer,Ring.expand]
  split
  · split <;> rfl
  · rfl

theorem changes_beheaded (r : Ring α) : r.beheaded.changes = r.changes + 1 := by
  simp only [beheaded]
  split <;> rfl

theorem changes_apply (r : Ring α) (operation : Operation α) :
    (r.apply operation).2.changes = r.changes + UInt64.ofNat (r.structural operation).toNat := by
  cases changes : r.structural operation with
  | false =>
    obtain ⟨slots,-,same⟩ := apply_unstructural changes
    rw [same]
    simp
  | true =>
    obtain ⟨value,-,next⟩ | ⟨-,-,next⟩ | ⟨-,next⟩ := apply_structural changes
    · rw [next,changes_offer]
      rfl
    · rw [next,changes_shrink,changes_beheaded]
      rfl
    · rw [next]
      rfl

theorem changes_replay (r : Ring α) (operations : List (Operation α)) :
    (replay apply r operations).2.changes = r.changes + UInt64.ofNat (r.alterations operations) := by
  induction operations generalizing r with
  | nil => simp [replay,alterations]
  | cons operation rest ih =>
    have later := ih (r.apply operation).2
    rw [changes_apply] at later
    rw [alterations,UInt64.ofNat_add,← UInt64.add_assoc]
    exact later

theorem changes_eq_iff {r : Ring α} {operations : List (Operation α)}
    (few : r.alterations operations < 2^64) :
    (replay apply r operations).2.changes = r.changes ↔ r.alterations operations = 0 := by
  rw [changes_replay]
  constructor
  · intro same
    have count := congrArg UInt64.toNat same
    rw [UInt64.toNat_add,UInt64.toNat_ofNat_of_lt' few] at count
    have := r.changes.toNat_lt
    omega
  · intro none
    rw [none]
    simp

theorem size_of_unaltered {r : Ring α} {operations : List (Operation α)}
    (none : r.alterations operations = 0) : (replay apply r operations).2.size = r.size := by
  induction operations generalizing r with
  | nil => rfl
  | cons operation rest ih =>
    rw [alterations,Nat.add_eq_zero_iff] at none
    have plain : r.structural operation = false := by simpa using none.1
    obtain ⟨slots,size,same⟩ := apply_unstructural plain
    have first : (r.apply operation).2.size = r.size := by
      rw [same]
      simp only [Ring.size,Ring.capacity,size]
    exact (ih none.2).trans first

end Ring

namespace Cursor

/-- The cursors that are obtained from a ring: at its ends, or by moving on one that was obtained before. -/
inductive Obtained : Ring α → Cursor → Prop
  | start (r : Ring α) : Obtained r (start r)
  | stop (r : Ring α) : Obtained r (stop r)
  | advanced {r : Ring α} {c next : Cursor} (obtained : Obtained r c) (operations : List (Operation α))
      (moved : c.advance (replay Ring.apply r operations).2 = .ok next) :
      Obtained (replay Ring.apply r operations).2 next

/-- The cursor refuses to be read or moved and stays where it is. -/
structure Stale (c : Cursor) (r : Ring α) : Prop where
  read : c.read r = .error .concurrentChange
  increment : c.increment r = (.error .concurrentChange,c)
  postIncrement : c.postIncrement r = (.error .concurrentChange,c)

/-- The cursor reads the element at its index, if there is one, and moves on. -/
structure Current (c : Cursor) (r : Ring α) : Prop where
  read : c.read r = r.element c.index.toNat
  outside : r.size ≤ c.index.toNat → c.read r = .error (.indexOutOfRange c.index.toNat r.size)
  increment : c.increment r = (.ok { c with index := c.index + 1 },{ c with index := c.index + 1 })
  postIncrement : c.postIncrement r = (.ok c,{ c with index := c.index + 1 })

variable {c next : Cursor} {r : Ring α}

omit [Inhabited α] in
theorem check_ok (known : c.expected = r.changes) : c.check r = .ok () := by
  simp [check,known]

omit [Inhabited α] in
theorem check_error (changed : c.expected ≠ r.changes) : c.check r = .error .concurrentChange := by
  simp [check,changed.symm]

theorem read_ok (known : c.expected = r.changes) : c.read r = r.element c.index.toNat := by
  rw [read,check_ok known]
  rfl

omit [Inhabited α] in
theorem advance_ok (known : c.expected = r.changes) :
    c.advance r = .ok { c with index := c.index + 1 } := by
  rw [advance,check_ok known]
  rfl

omit [Inhabited α] in
theorem advance_error (changed : c.expected ≠ r.changes) : c.advance r = .error .concurrentChange := by
  rw [advance,check_error changed]
  rfl

omit [Inhabited α] in
theorem advance_eq_ok_iff :
    c.advance r = .ok next ↔ c.expected = r.changes ∧ next = { c with index := c.index + 1 } := by
  by_cases known : c.expected = r.changes
  · rw [advance_ok known,Except.ok.injEq]
    exact ⟨fun same => ⟨known,same.symm⟩,fun same => same.2.symm⟩
  · rw [advance_error known]
    exact ⟨nofun,fun same => absurd same.1 known⟩

theorem stale_of_ne (changed : c.expected ≠ r.changes) : c.Stale r where
  read := by
    rw [Cursor.read,check_error changed]
    rfl
  increment := by rw [Cursor.increment,advance_error changed]
  postIncrement := by rw [Cursor.postIncrement,advance_error changed]

theorem current_of_eq (known : c.expected = r.changes) : c.Current r where
  read := read_ok known
  outside beyond := by rw [read_ok known,Ring.element,if_pos beyond]
  increment := by rw [Cursor.increment,advance_ok known]
  postIncrement := by rw [Cursor.postIncrement,advance_ok known]

theorem Obtained.expected (obtained : Obtained r c) : c.expected = r.changes := by
  cases obtained with
  | start => rfl
  | stop => rfl
  | advanced obtained operations moved =>
    obtain ⟨known,rfl⟩ := advance_eq_ok_iff.mp moved
    exact known

/-- One pass of a loop: the element that was visited, with what the loop had when it was. -/
structure Pass (α σ : Type) where
  value : α
  own : σ
  ring : Ring α

/-- How many structural changes the body makes in a pass. -/
def Pass.alterations (edits : α → σ → Ring α → List (Operation α)) (pass : Pass α σ) : Nat :=
  pass.ring.alterations (edits pass.value pass.own pass.ring)

/-- A loop from one cursor up to another: compare, read, run the body, move on. -/
inductive Loop (body : α → σ → Ring α → σ × Ring α) (last : Cursor) :
    Cursor → σ → Ring α → List (Pass α σ) → Except Failure (List α) × σ × Ring α → Prop
  | ended {c own r} (reached : c.sameAs last = true) : Loop body last c own r [] (.ok [],own,r)
  | unread {c own r failure} (before : c.sameAs last = false) (failed : c.read r = .error failure) :
      Loop body last c own r [] (.error failure,own,r)
  | unmoved {c own r value failure} (before : c.sameAs last = false) (read : c.read r = .ok value)
      (failed : c.advance (body value own r).2 = .error failure) :
      Loop body last c own r [⟨value,own,r⟩] (.error failure,body value own r)
  | passed {c next own r value passes values final} (before : c.sameAs last = false)
      (read : c.read r = .ok value) (moved : c.advance (body value own r).2 = .ok next)
      (later : Loop body last next (body value own r).1 (body value own r).2 passes (values,final)) :
      Loop body last c own r (⟨value,own,r⟩ :: passes) (values.map (value :: ·),final)

theorem sameAs_iff {d : Cursor} : c.sameAs d = true ↔ c.index.toNat = d.index.toNat := by
  rw [sameAs,beq_iff_eq,UInt64.toNat_inj]

theorem index_succ {last : Cursor} (before : c.index.toNat < last.index.toNat) :
    (c.index + 1).toNat = c.index.toNat + 1 := by
  have := last.index.toNat_lt
  rw [UInt64.toNat_add,UInt64.toNat_one]
  omega

/-- As many passes as there are indices left are all that the loop makes. -/
theorem visit_loops (body : α → σ → Ring α → σ × Ring α) (last : Cursor) (fuel : Nat) (c : Cursor)
    (own : σ) (r : Ring α) (left : c.index.toNat + fuel = last.index.toNat) :
    ∃ passes, Loop body last c own r passes (visit body last fuel c own r) := by
  induction fuel generalizing c own r with
  | zero => exact ⟨_,.ended (sameAs_iff.mpr left)⟩
  | succ fuel ih =>
    have apart : c.sameAs last = false := by
      rw [Bool.eq_false_iff,Ne,sameAs_iff]
      omega
    rw [visit,apart,if_neg Bool.false_ne_true]
    cases read : c.read r with
    | error failure => exact ⟨_,.unread apart read⟩
    | ok value =>
      cases moved : c.advance (body value own r).2 with
      | error failure =>
        dsimp only
        rw [moved]
        exact ⟨_,.unmoved apart read moved⟩
      | ok next =>
        obtain ⟨-,rfl⟩ := advance_eq_ok_iff.mp moved
        have further := index_succ (show c.index.toNat < last.index.toNat by omega)
        obtain ⟨passes,later⟩ := ih { c with index := c.index + 1 } (body value own r).1
          (body value own r).2 (by dsimp only; omega)
        dsimp only
        rw [moved]
        exact ⟨_,.passed apart read moved later⟩

/-- What a loop sees of the elements from index `first` to `count`: all of them if no pass changes the
structure, and otherwise a failure. -/
structure Sees (edits : α → σ → Ring α → List (Operation α)) (first count : Nat)
    (passes : List (Pass α σ)) (outcome : Except Failure (List α)) : Prop where
  quiet : (∀ pass ∈ passes, pass.alterations edits = 0) →
    outcome = .ok (passes.map (·.value)) ∧ first + passes.length = count
  altered : ∀ pass ∈ passes, 0 < pass.alterations edits → outcome = .error .concurrentChange
  elements : ∀ i (inside : i < passes.length),
    passes[i].ring.element (first + i) = .ok passes[i].value

theorem Loop.sees {body : α → σ → Ring α → σ × Ring α} (edits : α → σ → Ring α → List (Operation α))
    (acts : ∀ value own q, (body value own q).2 = (replay Ring.apply q (edits value own q)).2)
    {last c : Cursor} {own : σ} {r : Ring α} {passes : List (Pass α σ)}
    {result : Except Failure (List α) × σ × Ring α} (looped : Loop body last c own r passes result)
    (known : c.expected = r.changes) (sized : last.index.toNat = r.size)
    (left : c.index.toNat ≤ r.size) (few : ∀ pass ∈ passes, pass.alterations edits < 2^64) :
    Sees edits c.index.toNat r.size passes result.1 := by
  induction looped with
  | @ended c own r reached =>
    rw [sameAs_iff] at reached
    exact ⟨fun _ => ⟨rfl,by simp; omega⟩,by simp,by simp⟩
  | @unread c own r failure before failed =>
    rw [Bool.eq_false_iff,Ne,sameAs_iff] at before
    rw [read_ok known,Ring.element,if_neg (by omega)] at failed
    cases failed
  | @unmoved c own r value failure before read failed =>
    have stale : c.expected ≠ (body value own r).2.changes := fun same => by
      rw [advance_ok same] at failed
      cases failed
    rw [advance_error stale] at failed
    cases failed
    refine ⟨fun quiet => ?_,fun _ _ _ => rfl,fun i inside => ?_⟩
    · have none := quiet _ (List.mem_singleton_self _)
      have same := (Ring.changes_eq_iff (few _ (List.mem_singleton_self _))).mpr none
      rw [acts] at stale
      exact absurd (known.trans same.symm) stale
    · obtain rfl : i = 0 := by simpa using inside
      exact (read_ok known).symm.trans read
  | @passed c next own r value passes values final before read moved later ih =>
    obtain ⟨same,rfl⟩ := advance_eq_ok_iff.mp moved
    have none : r.alterations (edits value own r) = 0 := by
      rw [acts,known] at same
      exact (Ring.changes_eq_iff (few _ List.mem_cons_self)).mp same.symm
    have size : (body value own r).2.size = r.size := by
      rw [acts]
      exact Ring.size_of_unaltered none
    rw [Bool.eq_false_iff,Ne,sameAs_iff] at before
    have further := index_succ (show c.index.toNat < last.index.toNat by omega)
    have rest := ih same (sized.trans size.symm) (by rw [size]; dsimp only; omega)
      fun pass member => few pass (List.mem_cons_of_mem _ member)
    rw [size] at rest
    dsimp only at rest
    rw [further] at rest
    refine ⟨fun quiet => ?_,fun pass member altered => ?_,fun i inside => ?_⟩
    · obtain ⟨all,length⟩ := rest.quiet fun pass member => quiet pass (List.mem_cons_of_mem _ member)
      exact ⟨by rw [all]; rfl,by rw [List.length_cons]; omega⟩
    · rcases List.mem_cons.mp member with rfl | member
      · exact absurd none altered.ne'
      · rw [rest.altered pass member altered]
        rfl
    · cases i with
      | zero => exact (read_ok known).symm.trans read
      | succ i =>
        have inside : i < passes.length := by simpa using inside
        rw [List.getElem_cons_succ,show c.index.toNat + (i+1) = c.index.toNat + 1 + i by omega]
        exact rest.elements i inside

theorem Loop.untouched {body : α → σ → Ring α → σ × Ring α} (idle : ∀ value own q, (body value own q).2 = q)
    {last c : Cursor} {own : σ} {r : Ring α} {passes : List (Pass α σ)}
    {result : Except Failure (List α) × σ × Ring α} (looped : Loop body last c own r passes result) :
    result.2.2 = r ∧ ∀ pass ∈ passes, pass.ring = r := by
  induction looped with
  | ended reached => simp
  | unread before failed => simp
  | unmoved before read failed => exact ⟨idle _ _ _,by simp⟩
  | passed before read moved later ih =>
    rw [idle] at ih
    exact ⟨ih.1,List.forall_mem_cons.mpr ⟨rfl,ih.2⟩⟩

/-- A cursor answers for the ring as it is now as long as the structure is what it was when the cursor was
obtained, and refuses otherwise; so does a loop over the ring, whatever its body does. -/
theorem fails_fast {allocation : Allocation} {requested : UInt64} {origin : Ring α}
    (created : Ring.create allocation requested = .ok origin)
    (earlier : List (Operation α))
    (small : ∀ before ∈ earlier.inits, (replay Ring.apply origin before).2.capacity ≤ 2^63) :
    let r := (replay Ring.apply origin earlier).2
    (∀ (c : Cursor) (later : List (Operation α)), Obtained r c → r.alterations later < 2^64 →
      (0 < r.alterations later → c.Stale (replay Ring.apply r later).2) ∧
      (r.alterations later = 0 → c.Current (replay Ring.apply r later).2)) ∧
    ∀ (σ : Type) (body : α → σ → Ring α → σ × Ring α) (own : σ),
      (∀ edits : α → σ → Ring α → List (Operation α),
        (∀ value own q, (body value own q).2 = (replay Ring.apply q (edits value own q)).2) →
        ∃ passes, Loop body (stop r) (start r) own r passes (walk body own r) ∧
          ((∀ pass ∈ passes, pass.alterations edits < 2^64) →
            Sees edits 0 r.size passes (walk body own r).1)) ∧
      ((∀ value own q, (body value own q).2 = q) →
        ∃ values, (walk body own r).1 = .ok values ∧ values.length = r.size ∧
          ∀ i (inside : i < values.length), r.element i = .ok values[i]) := by
  intro r
  obtain ⟨-,held⟩ := Ring.replay_holds created small
  have addressable : r.size < 2^64 := by
    have fits := held.fits
    have room := small earlier (by simp)
    rw [held.size_eq]
    omega
  have last : (stop r).index.toNat = r.size := UInt64.toNat_ofNat_of_lt' addressable
  have loops {σ : Type} (body : α → σ → Ring α → σ × Ring α) (own : σ) :
      ∃ passes, Loop body (stop r) (start r) own r passes (walk body own r) :=
    visit_loops body (stop r) r.size (start r) own r (by rw [last]; exact Nat.zero_add _)
  constructor
  · intro c later obtained few
    have same := Ring.changes_eq_iff few
    rw [← obtained.expected] at same
    exact ⟨fun some => stale_of_ne fun equal => some.ne' (same.mp equal.symm),
      fun none => current_of_eq (same.mpr none).symm⟩
  · intro σ body own
    obtain ⟨passes,looped⟩ := loops body own
    constructor
    · intro edits acts
      exact ⟨passes,looped,looped.sees edits acts rfl last (Nat.zero_le _)⟩
    · intro idle
      have sees := looped.sees (fun _ _ _ => []) idle rfl last (Nat.zero_le _)
        fun _ _ => Nat.two_pow_pos 64
      obtain ⟨all,length⟩ := sees.quiet fun _ _ => rfl
      refine ⟨_,all,by simpa [start] using length,fun i inside => ?_⟩
      have same := (looped.untouched idle).2
      have within : i < passes.length := by simpa using inside
      have element := sees.elements i within
      rw [same _ (List.getElem_mem within)] at element
      simpa [start] using element

/-- A poll and an offer bring a ring of three back to the same size; a loop offers in its last pass. -/
theorem fails_fast_refilled :
    let r := (replay Ring.apply (Ring.vacant 4 4) [.offer 1,.offer 2,.offer 3]).2
    let body (value passes : Nat) (q : Ring Nat) := (passes + 1,if passes = 2 then q.offer value else q)
    let edits (value passes : Nat) (_ : Ring Nat) : List (Operation Nat) :=
      if passes = 2 then [.offer value] else []
    Stale ⟨1,3⟩ (replay Ring.apply r [.poll,.offer 1]).2 ∧
      Current ⟨1,3⟩ (replay Ring.apply r [.assignElement 1 9,.peek]).2 ∧
      (∃ passes, Loop body (stop r) (start r) 0 r passes (walk body 0 r) ∧
        Sees edits 0 3 passes (walk body 0 r).1) ∧
      (walk body 0 r).1 = .error .concurrentChange := by
  intro r body edits
  obtain ⟨cursors,loops⟩ := fails_fast (show Ring.create .unlimited 3 = .ok (Ring.vacant 4 4 : Ring Nat) from rfl)
    [.offer 1,.offer 2,.offer 3] (by decide +kernel)
  have obtained : Obtained r ⟨1,3⟩ := .advanced (.start r) [] rfl
  obtain ⟨refuses,-⟩ := cursors ⟨1,3⟩ [.poll,.offer 1] obtained (by decide +kernel)
  obtain ⟨-,answers⟩ := cursors ⟨1,3⟩ [.assignElement 1 9,.peek] obtained (by decide +kernel)
  refine ⟨refuses (by decide +kernel),answers (by decide +kernel),?_,by decide +kernel⟩
  have acts : ∀ value passes q, (body value passes q).2 = (replay Ring.apply q (edits value passes q)).2 := by
    intro value passes q
    dsimp only [body,edits]
    split <;> rfl
  obtain ⟨passes,looped,sees⟩ := (loops Nat body 0).1 edits acts
  refine ⟨passes,looped,sees fun pass _ => ?_⟩
  have once := Ring.alterations_le pass.ring (edits pass.value pass.own pass.ring)
  have short : (edits pass.value pass.own pass.ring).length ≤ 1 := by
    dsimp only [edits]
    split <;> simp
  exact (once.trans short).trans_lt (by decide)

end Cursor
end SessionPipeline
