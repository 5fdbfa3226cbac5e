import Mathlib.Data.List.Infix
import SessionPipeline.Queue.Shared
import SessionPipeline.Proofs.Queue.Ring

/-! Rings and shared rings as plain first-in-first-out lists. A sequence of operations is answered in
the same way by the list, the ring and the ring behind a lock, whatever wraps, doublings and shrinks
the ring goes through meanwhile. -/
namespace SessionPipeline
namespace Fifo

/-- What can be asked of a ring; assignments go through the reference that `peek` or `element` gives. -/
inductive Operation (α : Type)
  | offer (value : α)
  | poll
  | peek
  | assignHead (value : α)
  | element (index : Nat)
  | assignElement (index : Nat) (value : α)
  | clear
  | size
  | isEmpty

inductive Answer (α : Type)
  | done
  | flag (answer : Bool)
  | count (answer : Nat)
  | head (answer : Option α)
  | element (answer : Except Failure α)
  | outcome (answer : Except Failure Unit)
  | contents (answer : List α)

/-- What can be asked of a shared ring. -/
inductive Request (α : Type)
  | offer (value : α)
  | poll
  | peek
  | clear
  | size
  | isEmpty
  | snapshot

variable {α : Type}

def apply (xs : List α) : Operation α → Answer α × List α
  | .offer value => (.flag true,xs ++ [value])
  | .poll => (.head xs.head?,xs.tail)
  | .peek => (.head xs.head?,xs)
  | .assignHead value => (.flag !xs.isEmpty,xs.set 0 value)
  | .element index => (.element (match xs[index]? with
      | some x => .ok x
      | none => .error (.indexOutOfRange index xs.length)),xs)
  | .assignElement index value =>
    if index < xs.length then (.outcome (.ok ()),xs.set index value)
    else (.outcome (.error (.indexOutOfRange index xs.length)),xs)
  | .clear => (.done,[])
  | .size => (.count xs.length,xs)
  | .isEmpty => (.flag xs.isEmpty,xs)

def serve (xs : List α) : Request α → Answer α × List α
  | .offer value => (.flag true,xs ++ [value])
  | .poll => (.head xs.head?,xs.tail)
  | .peek => (.head xs.head?,xs)
  | .clear => (.done,[])
  | .size => (.count xs.length,xs)
  | .isEmpty => (.flag xs.isEmpty,xs)
  | .snapshot => (.contents xs,xs)

/-- The answers to a sequence of operations, with what is left after the last of them. -/
def replay {σ ο : Type} (answer : σ → ο → Answer α × σ) : σ → List ο → List (Answer α) × σ
  | s, [] => ([],s)
  | s, operation :: rest =>
    let (first,s) := answer s operation
    let (later,s) := replay answer s rest
    (first :: later,s)

theorem replay_append {σ ο : Type} (answer : σ → ο → Answer α × σ) (s : σ) (operations more : List ο) :
    (replay answer s (operations ++ more)).2 =
      (replay answer (replay answer s operations).2 more).2 := by
  induction operations generalizing s with
  | nil => rfl
  | cons operation rest ih => exact ih (answer s operation).2

/-- Two queues that answer alike step by step answer alike throughout. -/
theorem replay_related {σ τ ο : Type} {left : σ → ο → Answer α × σ} {right : τ → ο → Answer α × τ}
    (related : σ → τ → Prop) (bounded : σ → Prop)
    (step : ∀ s t operation, related s t → bounded s →
      (left s operation).1 = (right t operation).1 ∧ related (left s operation).2 (right t operation).2)
    {s : σ} {t : τ} (start : related s t) {operations : List ο}
    (within : ∀ before ∈ operations.inits, bounded (replay left s before).2) :
    (replay left s operations).1 = (replay right t operations).1 ∧
      related (replay left s operations).2 (replay right t operations).2 := by
  induction operations generalizing s t with
  | nil => exact ⟨rfl,start⟩
  | cons operation rest ih =>
    rw [List.inits_cons,List.forall_mem_cons,List.forall_mem_map] at within
    obtain ⟨same,next⟩ := step s t operation start within.1
    obtain ⟨answers,final⟩ := ih next within.2
    exact ⟨List.cons_eq_cons.mpr ⟨same,answers⟩,final⟩

end Fifo

open Fifo

variable {α : Type} [Inhabited α]

namespace Ring

/-- One operation on a ring. Offering has no way to fail and answers true. -/
def apply (r : Ring α) : Operation α → Answer α × Ring α
  | .offer value => (.flag true,r.offer value)
  | .poll => match r.poll with
    | some (head,rest) => (.head (some head),rest)
    | none => (.head none,r)
  | .peek => (.head r.peek,r)
  | .assignHead value => match r.setPeek value with
    | some next => (.flag true,next)
    | none => (.flag false,r)
  | .element index => (.element (r.element index),r)
  | .assignElement index value => match r.setElement index value with
    | .ok next => (.outcome (.ok ()),next)
    | .error failure => (.outcome (.error failure),r)
  | .clear => (.done,r.clear)
  | .size => (.count r.size,r)
  | .isEmpty => (.flag r.isEmpty,r)

theorem Holds.apply {r : Ring α} {xs : List α} (held : r.Holds xs) (small : r.capacity ≤ 2^63)
    (operation : Operation α) :
    (r.apply operation).1 = (Fifo.apply xs operation).1 ∧
      (r.apply operation).2.Holds (Fifo.apply xs operation).2 := by
  cases operation with
  | offer value => exact ⟨rfl,held.offer value⟩
  | poll =>
    cases xs with
    | nil =>
      rw [Ring.apply,held.poll_nil]
      exact ⟨rfl,held⟩
    | cons x xs =>
      obtain ⟨rest,polled,holds,_⟩ := held.poll_cons small
      rw [Ring.apply,polled]
      exact ⟨rfl,holds⟩
  | peek => exact ⟨congrArg Answer.head held.peek,held⟩
  | assignHead value =>
    cases xs with
    | nil =>
      rw [Ring.apply,held.setPeek_nil]
      exact ⟨rfl,held⟩
    | cons x xs =>
      obtain ⟨next,assigned,holds⟩ := held.setPeek_cons value
      rw [Ring.apply,assigned]
      exact ⟨rfl,holds⟩
  | element index => exact ⟨congrArg Answer.element (held.element index),held⟩
  | assignElement index value =>
    by_cases inside : index < xs.length
    · obtain ⟨next,assigned,holds⟩ := held.setElement inside value
      rw [Ring.apply,assigned,Fifo.apply,if_pos inside]
      exact ⟨rfl,holds⟩
    · rw [Ring.apply,held.setElement_error (Nat.le_of_not_lt inside),Fifo.apply,if_neg inside]
      exact ⟨rfl,held⟩
  | clear => exact ⟨rfl,held.clear⟩
  | size => exact ⟨congrArg Answer.count held.size_eq,held⟩
  | isEmpty => exact ⟨congrArg Answer.flag held.isEmpty_eq,held⟩

end Ring

namespace Shared

/-- One request to a shared ring, made by the one caller that uses it. -/
def serve (q : Shared α) : Request α → Answer α × Shared α
  | .offer value => (.flag true,q.offer value)
  | .poll => let (head,rest) := q.poll; (.head head,rest)
  | .peek => (.head q.peek,q)
  | .clear => (.done,q.clear)
  | .size => (.count q.size,q)
  | .isEmpty => (.flag q.isEmpty,q)
  | .snapshot => (.contents q.snapshot,q)

theorem serve_holds {q : Shared α} {xs : List α} (held : q.guarded.Holds xs)
    (small : q.capacity ≤ 2^63) (request : Request α) :
    (q.serve request).1 = (Fifo.serve xs request).1 ∧
      (q.serve request).2.guarded.Holds (Fifo.serve xs request).2 := by
  cases request with
  | offer value => exact ⟨rfl,held.offer value⟩
  | poll =>
    cases xs with
    | nil =>
      simp only [Shared.serve,Shared.poll,withLock,held.poll_nil]
      exact ⟨rfl,held⟩
    | cons x xs =>
      obtain ⟨rest,polled,holds,_⟩ := held.poll_cons small
      simp only [Shared.serve,Shared.poll,withLock,polled]
      exact ⟨rfl,holds⟩
  | peek => exact ⟨congrArg Answer.head held.peek,held⟩
  | clear => exact ⟨rfl,held.clear⟩
  | size => exact ⟨congrArg Answer.count held.size_eq,held⟩
  | isEmpty => exact ⟨congrArg Answer.flag held.isEmpty_eq,held⟩
  | snapshot => exact ⟨congrArg Answer.contents held.toList_eq,held⟩

end Shared

namespace Ring

/-- A ring that has been operated on answers and stands for what a list does. -/
theorem replay_holds {allocation : Allocation} {requested : UInt64} {r : Ring α}
    (created : create allocation requested = .ok r) {operations : List (Operation α)}
    (small : ∀ before ∈ operations.inits, (replay apply r before).2.capacity ≤ 2^63) :
    (replay apply r operations).1 = (replay Fifo.apply [] operations).1 ∧
      (replay apply r operations).2.Holds (replay Fifo.apply [] operations).2 :=
  replay_related (fun (r : Ring α) xs => r.Holds xs) (·.capacity ≤ 2^63)
    (fun _ _ operation held small => held.apply small operation) (create_holds created) small

/-- A ring, by itself or behind a lock, answers every sequence of operations as a list does. -/
theorem fifo {allocation : Allocation} {requested : UInt64} {r : Ring α}
    (created : create allocation requested = .ok r) :
    (∀ operations : List (Operation α),
      (∀ before ∈ operations.inits, (replay apply r before).2.capacity ≤ 2^63) →
      (replay apply r operations).1 = (replay Fifo.apply [] operations).1 ∧
      (replay apply r operations).2.toList = (replay Fifo.apply [] operations).2) ∧
    (∀ requests : List (Request α),
      (∀ before ∈ requests.inits, (replay Shared.serve ⟨r⟩ before).2.capacity ≤ 2^63) →
      (replay Shared.serve ⟨r⟩ requests).1 = (replay Fifo.serve [] requests).1 ∧
      (replay Shared.serve ⟨r⟩ requests).2.snapshot = (replay Fifo.serve [] requests).2) := by
  constructor
  · intro operations small
    obtain ⟨answers,final⟩ := replay_holds created small
    exact ⟨answers,final.toList_eq⟩
  · intro requests small
    obtain ⟨answers,final⟩ := replay_related (fun (q : Shared α) xs => q.guarded.Holds xs)
      (·.capacity ≤ 2^63) (fun q xs request held small => Shared.serve_holds held small request)
      (s := ⟨r⟩) (create_holds created) small
    exact ⟨answers,final.toList_eq⟩

/-- Both ways round a ring of four: it wraps, fills, doubles to eight and shrinks to four again. -/
theorem fifo_wrapped :
    let operations : List (Operation Nat) := [.offer 1,.offer 2,.offer 3,.poll,.poll,.offer 4,.offer 5,
      .offer 6,.offer 7,.assignHead 30,.assignElement 3 60,.poll,.poll,.element 1,.element 3,.poll,.poll,
      .poll,.poll,.offer 8]
    let requests : List (Request Nat) :=
      [.offer 1,.offer 2,.offer 3,.poll,.poll,.offer 4,.offer 5,.offer 6,.offer 7,.poll,.snapshot]
    (replay apply (vacant 4 4) operations).1 = (replay Fifo.apply [] operations).1 ∧
      (replay apply (vacant 4 4) operations).2.toList = [8] ∧
      (replay Shared.serve ⟨vacant 4 4⟩ requests).1 = (replay Fifo.serve [] requests).1 ∧
      (replay Shared.serve ⟨vacant 4 4⟩ requests).2.snapshot = [4,5,6,7] := by
  intro operations requests
  have both := fifo (show create .unlimited 3 = .ok (vacant 4 4 : Ring Nat) from rfl)
  obtain ⟨answers,contents⟩ := both.1 operations (by decide +kernel)
  obtain ⟨served,shown⟩ := both.2 requests (by decide +kernel)
  exact ⟨answers,contents,served,shown⟩

end Ring
end SessionPipeline
