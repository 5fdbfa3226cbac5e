import SessionPipeline.Filter.Basic

/-!
A chain of named filters, kept as a doubly linked list in an arena of slots. Slot 0 is the head and
slot 1 the tail; a slot that leaves the list goes to a stack of free slots with its generation
raised, so a handle to an earlier entry of that slot is recognised as stale.
-/
namespace SessionPipeline

abbrev EntryId := Nat
abbrev SessionRef := Nat

/-- A place in the chain of a session, valid for one entry from its linking to its unlinking. -/
structure Handle where
  owner : SessionRef
  entry : EntryId
  generation : UInt32
  deriving DecidableEq, Repr, Inhabited

structure Slot where
  name : String := ""
  filter : Option FilterId := none
  prev : Option EntryId := none
  next : Option EntryId := none
  generation : UInt32 := 0
  linked : Bool := false
  deriving DecidableEq, Repr, Inhabited

/-- What a chain tells of one entry. -/
structure Entry where
  name : String
  filter : Option FilterId
  handle : Handle
  deriving DecidableEq, Repr, Inhabited

inductive Position
  | first
  | last
  | before (base : String)
  | after (base : String)
  deriving DecidableEq, Repr

structure Chain where
  slots : Array Slot
  free : List EntryId := []
  index : List (String × EntryId) := []
  deriving DecidableEq, Repr

namespace Chain

def head : EntryId := 0
def tail : EntryId := 1

def empty : Chain :=
  { slots := #[{ name := "head", next := some tail, linked := true },
               { name := "tail", prev := some head, linked := true }] }

instance : Inhabited Chain := ⟨empty⟩

def slot (c : Chain) (id : EntryId) : Slot := c.slots.getD id {}

def find? (c : Chain) (name : String) : Option EntryId := c.index.lookup name

def contains (c : Chain) (name : String) : Bool := (c.find? name).isSome

def size (c : Chain) : Nat := c.index.length

def isEmpty (c : Chain) : Bool := c.index.isEmpty

def isCurrent (c : Chain) (h : Handle) : Bool :=
  h.entry < c.slots.size && (c.slot h.entry).generation == h.generation && (c.slot h.entry).linked

def handle (c : Chain) (owner : SessionRef) (id : EntryId) : Handle :=
  ⟨owner, id, (c.slot id).generation⟩

/-- The entries met from `id` by following `step` up to `stop`. -/
def walk (c : Chain) (step : Slot → Option EntryId) (stop : EntryId) : Nat → Option EntryId → List EntryId
  | 0, _ => []
  | _ + 1, none => []
  | fuel + 1, some id => if id == stop then [] else id :: c.walk step stop fuel (step (c.slot id))

def forwards (c : Chain) : List EntryId := c.walk (·.next) tail c.slots.size (c.slot head).next

def backwards (c : Chain) : List EntryId := c.walk (·.prev) head c.slots.size (c.slot tail).prev

/-- The end of a chain at which an event leaves it, and the one at which it enters. -/
def exit (outbound : Bool) : EntryId := if outbound then head else tail
def entrance (outbound : Bool) : EntryId := if outbound then tail else head

/-- Where an event goes from an entry. -/
def following (c : Chain) (outbound : Bool) (id : EntryId) : EntryId :=
  if outbound then (c.slot id).prev.getD head else (c.slot id).next.getD tail

def entry (c : Chain) (owner : SessionRef) (id : EntryId) : Entry :=
  ⟨(c.slot id).name, (c.slot id).filter, c.handle owner id⟩

def getAll (c : Chain) (owner : SessionRef) : List Entry := c.forwards.map (c.entry owner)

def getAllReversed (c : Chain) (owner : SessionRef) : List Entry := c.backwards.map (c.entry owner)

def get (c : Chain) (name : String) : Except Failure (Option FilterId) :=
  match c.find? name with
  | some id => .ok (c.slot id).filter
  | none => .error (.nameNotFound name)

def getEntry (c : Chain) (owner : SessionRef) (name : String) : Except Failure Entry :=
  match c.find? name with
  | some id => .ok (c.entry owner id)
  | none => .error (.nameNotFound name)

def getHandle (c : Chain) (owner : SessionRef) (name : String) : Except Failure Handle :=
  (c.getEntry owner name).map (·.handle)

/-- The first entry that holds a filter. -/
def holder? (c : Chain) (filter : Option FilterId) : Option EntryId :=
  c.forwards.find? fun id => (c.slot id).filter == filter

def containsFilter (c : Chain) (filter : Option FilterId) : Bool := (c.holder? filter).isSome

def findFilter? (c : Chain) (test : FilterId → Bool) : Option FilterId :=
  (c.forwards.filterMap fun id => (c.slot id).filter).find? test

def describe (parts : List (String × String)) : String :=
  if parts.isEmpty then "\x7b empty \x7d"
  else "\x7b " ++ ", ".intercalate (parts.map fun (name, label) => "(" ++ name ++ ":" ++ label ++ ")")
    ++ " \x7d"

def toString (c : Chain) (label : FilterId → String) : String :=
  if c.isEmpty then describe []
  else describe (c.forwards.map fun id =>
    ((c.slot id).name, ((c.slot id).filter.map label).getD "null"))

/-- The entry that a position is relative to must be there. -/
def checkBase (c : Chain) : Position → Except Failure Unit
  | .before base | .after base => if c.contains base then .ok () else .error (.nameNotFound base)
  | _ => .ok ()

def checkAddition (c : Chain) (name : String) (position : Position) : Except Failure Unit :=
  if c.contains name then .error (.duplicateName name) else c.checkBase position

def neighbours (c : Chain) (position : Position) : EntryId × EntryId :=
  match position with
  | .first => (head, (c.slot head).next.getD tail)
  | .last => ((c.slot tail).prev.getD head, tail)
  | .before base =>
    let id := (c.find? base).getD tail
    ((c.slot id).prev.getD head, id)
  | .after base =>
    let id := (c.find? base).getD head
    (id, (c.slot id).next.getD tail)

def modify (c : Chain) (id : EntryId) (change : Slot → Slot) : Chain :=
  { c with slots := c.slots.modify id change }

/-- A slot for a new entry, not linked yet: the one freed last, else a new one. -/
def allocate (c : Chain) (name : String) (filter : FilterId) : EntryId × Chain :=
  match c.free with
  | id :: free =>
    (id, { c.modify id fun s =>
      { s with name := name, filter := some filter, prev := none, next := none, linked := false }
      with free := free })
  | [] => (c.slots.size, { c with slots := c.slots.push { name := name, filter := some filter } })

def release (c : Chain) (id : EntryId) : Chain :=
  { c.modify id fun s => { generation := s.generation + 1 } with free := id :: c.free }

def link (c : Chain) (id prev next : EntryId) : Chain :=
  ((c.modify id fun s => { s with prev := some prev, next := some next, linked := true }).modify prev
    fun s => { s with next := some id }).modify next fun s => { s with prev := some id }

def unlink (c : Chain) (id : EntryId) : Chain :=
  let s := c.slot id
  let c := match s.prev with
    | some prev => c.modify prev fun p => { p with next := s.next }
    | none => c
  let c := match s.next with
    | some next => c.modify next fun n => { n with prev := s.prev }
    | none => c
  c.modify id fun s => { s with linked := false }

def insert (c : Chain) (id : EntryId) (name : String) (position : Position) : Chain :=
  let (prev, next) := c.neighbours position
  let c := c.link id prev next
  { c with index := (name, id) :: c.index }

def drop (c : Chain) (id : EntryId) (name : String) : Chain :=
  let c := c.unlink id
  { c with index := c.index.filter (·.1 != name) }.release id

def setFilter (c : Chain) (id : EntryId) (filter : FilterId) : Chain :=
  c.modify id fun s => { s with filter := some filter }

end Chain
end SessionPipeline
