import SessionPipeline.Chain.Arena

/-!
Templates of chains: named filters in order, edited by the same rules as a chain but without hooks,
to be added to a chain later.
-/
namespace SessionPipeline

structure Template where
  entries : List (String × FilterId) := []
  deriving DecidableEq, Repr, Inhabited

namespace Template

def get? (t : Template) (name : String) : Option FilterId := t.entries.lookup name

def contains (t : Template) (name : String) : Bool := (t.get? name).isSome

def size (t : Template) : Nat := t.entries.length

def isEmpty (t : Template) : Bool := t.entries.isEmpty

def toString (t : Template) (label : FilterId → String) : String :=
  Chain.describe (t.entries.map fun (name, filter) => (name, label filter))

def needFilter (name : String) : Option FilterId → Except Failure FilterId
  | some filter => .ok filter
  | none => .error (.invalidArgument ("filter must not be null: " ++ name))

def insertBefore (base : String) (entry : String × FilterId) :
    List (String × FilterId) → List (String × FilterId)
  | [] => [entry]
  | e :: rest => if e.1 == base then entry :: e :: rest else e :: insertBefore base entry rest

def insertAfter (base : String) (entry : String × FilterId) :
    List (String × FilterId) → List (String × FilterId)
  | [] => [entry]
  | e :: rest => if e.1 == base then e :: entry :: rest else e :: insertAfter base entry rest

def insertAt (position : Position) (entry : String × FilterId) (entries : List (String × FilterId)) :
    List (String × FilterId) :=
  match position with
  | .first => entry :: entries
  | .last => entries ++ [entry]
  | .before base => insertBefore base entry entries
  | .after base => insertAfter base entry entries

def checkBase (t : Template) : Position → Except Failure Unit
  | .before base | .after base => if t.contains base then .ok () else .error (.nameNotFound base)
  | _ => .ok ()

def add (t : Template) (position : Position) (name : String) (filter : Option FilterId) :
    Except Failure Template := do
  let filter ← needFilter name filter
  if t.contains name then throw (.duplicateName name)
  t.checkBase position
  return ⟨insertAt position (name, filter) t.entries⟩

def remove (t : Template) (name : String) : Except Failure (FilterId × Template) :=
  match t.get? name with
  | some filter => .ok (filter, ⟨t.entries.filter (·.1 != name)⟩)
  | none => .error (.nameNotFound name)

def replace (t : Template) (name : String) (filter : Option FilterId) :
    Except Failure (FilterId × Template) := do
  let filter ← needFilter name filter
  match t.get? name with
  | some old =>
    return (old, ⟨t.entries.map fun e => if e.1 == name then (name, filter) else e⟩)
  | none => throw (.nameNotFound name)

def clear (_ : Template) : Template := {}

end Template

end SessionPipeline
