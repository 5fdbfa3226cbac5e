import SessionPipeline.Failure

/-!
A queue in a ring of slots whose number is a power of two. It doubles when full and shrinks again
when drained below an eighth, never below its initial capacity. Vacant slots hold the default value.
-/
namespace SessionPipeline

/-- Whether there is memory for so many slots, or how asking for it fails. -/
abbrev Allocation := Nat → Except Failure Unit

def Allocation.unlimited : Allocation := fun _ => .ok ()

/-- An address space that can index so many slots, and memory for so many of them. -/
def Allocation.within (addressable available : Nat) : Allocation := fun slots =>
  if slots > addressable then .error (.length "cannot create std::vector larger than max_size()")
  else if slots > available then .error .exhausted
  else .ok ()

structure Ring (α : Type) where
  initialCapacity : Nat
  slots : Array α
  mask : Nat
  first : Nat := 0
  last : Nat := 0
  full : Bool := false
  shrinkThreshold : Nat := 0
  changes : UInt64 := 0
  deriving Inhabited

namespace Ring

def minimumCapacity : UInt64 := 4

def maximumCapacity : UInt64 := 0x8000000000000000

/-- Doubles `actual` until it reaches `requested`; sixty-four doublings are enough for any word. -/
def doubleUntil (requested : UInt64) : Nat → UInt64 → UInt64
  | 0, actual => actual
  | fuel + 1, actual =>
    if actual < requested then doubleUntil requested fuel (actual <<< 1) else actual

def normalize (requested : UInt64) : Except Failure UInt64 :=
  if requested > maximumCapacity then
    .error (.length ("RingBuffer capacity " ++ toString requested.toNat
      ++ " exceeds the largest power of two"))
  else .ok (doubleUntil requested 64 1)

variable {α : Type} [Inhabited α]

def vacant (initial capacity : Nat) : Ring α :=
  ⟨initial, Array.replicate capacity default, capacity - 1, 0, 0, false, 0, 0⟩

def create (allocation : Allocation) (requested : UInt64) : Except Failure (Ring α) := do
  let capacity := (← normalize (max requested minimumCapacity)).toNat
  allocation capacity
  return vacant capacity capacity

omit [Inhabited α] in
def capacity (r : Ring α) : Nat := r.slots.size

omit [Inhabited α] in
def isEmpty (r : Ring α) : Bool := !r.full && r.first == r.last

omit [Inhabited α] in
def size (r : Ring α) : Nat :=
  if r.full then r.capacity
  else if r.last ≥ r.first then r.last - r.first
  else r.last + r.capacity - r.first

omit [Inhabited α] in
def place (r : Ring α) (index : Nat) : Nat := (r.first + index) &&& r.mask

def slot (r : Ring α) (index : Nat) : α := r.slots.getD (r.place index) default

def toList (r : Ring α) : List α := (List.range r.size).map r.slot

/-- Moves the first `count` elements to the front of a fresh array. -/
def repack (r : Ring α) (capacity count : Nat) : Ring α :=
  { r with
    slots := ((List.range count).map r.slot).toArray ++ Array.replicate (capacity - count) default
    mask := capacity - 1, first := 0, last := count, full := false }

def expand (r : Ring α) : Ring α :=
  if r.full then
    let old := r.capacity
    let grown := r.repack (2 * old) old
    if 2 * old / 8 > r.initialCapacity then { grown with shrinkThreshold := 2 * old / 8 } else grown
  else r

def offer (r : Ring α) (element : α) : Ring α :=
  let r := r.expand
  let last := (r.last + 1) &&& r.mask
  { r with slots := r.slots.setIfInBounds r.last element, last := last, full := r.first == last,
           changes := r.changes + 1 }

omit [Inhabited α] in
/-- The capacity that a shrink to `count` elements asks for: room for one more than `count`. -/
def shrunkCapacity (count : Nat) : Nat :=
  let fitting := (doubleUntil count.toUInt64 64 1).toNat
  if count == fitting then 2 * fitting else fitting

def shrink (r : Ring α) : Ring α :=
  let count := r.size
  let old := r.capacity
  let fitting := shrunkCapacity count
  if count > r.shrinkThreshold || fitting ≥ old then r
  else if fitting < r.initialCapacity && old == r.initialCapacity then r
  else { r.repack (max fitting r.initialCapacity) count with shrinkThreshold := 0 }

/-- Takes the head, leaving its slot vacant. -/
def poll (r : Ring α) : Option (α × Ring α) :=
  if r.isEmpty then none
  else
    let head := r.slot 0
    let first := (r.first + 1) &&& r.mask
    let r := { r with slots := r.slots.setIfInBounds r.first default, full := false,
                      first := first, changes := r.changes + 1 }
    let r := if first == r.last then { r with first := 0, last := 0 } else r
    some (head, r.shrink)

def peek (r : Ring α) : Option α := if r.isEmpty then none else some (r.slot 0)

def element (r : Ring α) (index : Nat) : Except Failure α :=
  if index ≥ r.size then .error (.indexOutOfRange index r.size) else .ok (r.slot index)

omit [Inhabited α] in
def setElement (r : Ring α) (index : Nat) (value : α) : Except Failure (Ring α) :=
  if index ≥ r.size then .error (.indexOutOfRange index r.size)
  else .ok { r with slots := r.slots.setIfInBounds (r.place index) value }

omit [Inhabited α] in
def setPeek (r : Ring α) (value : α) : Option (Ring α) :=
  if r.isEmpty then none else some { r with slots := r.slots.setIfInBounds r.first value }

def clear (r : Ring α) : Ring α :=
  { vacant r.initialCapacity r.initialCapacity with changes := r.changes + 1 }

end Ring
end SessionPipeline
