import SessionPipeline.Queue.Ring

/-!
Cursors over a ring. A cursor remembers the ring's change count; once the ring has changed its
structure the cursor refuses to be read or moved.
-/
namespace SessionPipeline

structure Cursor where
  index : UInt64
  expected : UInt64
  deriving DecidableEq, Repr, Inhabited

namespace Cursor

variable {α σ : Type} [Inhabited α]

omit [Inhabited α] in
def start (r : Ring α) : Cursor := ⟨0, r.changes⟩

omit [Inhabited α] in
def stop (r : Ring α) : Cursor := ⟨r.size.toUInt64, r.changes⟩

omit [Inhabited α] in
def check (c : Cursor) (r : Ring α) : Except Failure Unit :=
  if r.changes != c.expected then .error .concurrentChange else .ok ()

def read (c : Cursor) (r : Ring α) : Except Failure α := do
  c.check r
  r.element c.index.toNat

omit [Inhabited α] in
def advance (c : Cursor) (r : Ring α) : Except Failure Cursor := do
  c.check r
  return { c with index := c.index + 1 }

omit [Inhabited α] in
/-- The cursor that is handed out, with the cursor that is left. -/
def increment (c : Cursor) (r : Ring α) : Except Failure Cursor × Cursor :=
  match c.advance r with
  | .ok next => (.ok next, next)
  | .error failure => (.error failure, c)

omit [Inhabited α] in
/-- As `increment`, but what is handed out is a copy of the cursor as it was. -/
def postIncrement (c : Cursor) (r : Ring α) : Except Failure Cursor × Cursor :=
  match c.advance r with
  | .ok next => (.ok c, next)
  | .error failure => (.error failure, c)

/-- Cursors over one ring are equal when they stand at the same index, whatever they remember. -/
def sameAs (c d : Cursor) : Bool := c.index == d.index

/-- Visits the elements from a cursor up to `last`, `body` deciding at each of them what becomes of
the ring and of what the loop has besides. One pass for each element is enough. -/
def visit (body : α → σ → Ring α → σ × Ring α) (last : Cursor) :
    Nat → Cursor → σ → Ring α → Except Failure (List α) × σ × Ring α
  | 0, _, own, r => (.ok [], own, r)
  | fuel + 1, c, own, r =>
    if c.sameAs last then (.ok [], own, r)
    else
      match c.read r with
      | .error failure => (.error failure, own, r)
      | .ok value =>
        let (own, r) := body value own r
        match c.advance r with
        | .error failure => (.error failure, own, r)
        | .ok next =>
          let (values, rest) := visit body last fuel next own r
          (values.map (value :: ·), rest)

def walk (body : α → σ → Ring α → σ × Ring α) (own : σ) (r : Ring α) :
    Except Failure (List α) × σ × Ring α :=
  visit body (stop r) r.size (start r) own r

end Cursor
end SessionPipeline
