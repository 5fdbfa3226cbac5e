import SessionPipeline.Queue.Ring

/-!
A ring that is reached through a lock only. Used by one caller at a time it is the ring itself;
`withLock` is the one way in, and a snapshot copies the elements head first.
-/
namespace SessionPipeline

structure Shared (α : Type) where
  guarded : Ring α

namespace Shared

variable {α β : Type} [Inhabited α]

def create (allocation : Allocation) (requested : UInt64) : Except Failure (Shared α) := do
  return ⟨← Ring.create allocation requested⟩

omit [Inhabited α] in
def withLock (q : Shared α) (body : Ring α → β × Ring α) : β × Shared α :=
  let (result, ring) := body q.guarded
  (result, ⟨ring⟩)

def offer (q : Shared α) (element : α) : Shared α :=
  (q.withLock fun r => ((), r.offer element)).2

def poll (q : Shared α) : Option α × Shared α :=
  q.withLock fun r =>
    match r.poll with
    | some (head, r) => (some head, r)
    | none => (none, r)

def peek (q : Shared α) : Option α := q.guarded.peek

omit [Inhabited α] in
def size (q : Shared α) : Nat := q.guarded.size

omit [Inhabited α] in
def isEmpty (q : Shared α) : Bool := q.guarded.isEmpty

omit [Inhabited α] in
def capacity (q : Shared α) : Nat := q.guarded.capacity

def clear (q : Shared α) : Shared α := (q.withLock fun r => ((), r.clear)).2

def snapshot (q : Shared α) : List α := q.guarded.toList

end Shared
end SessionPipeline
