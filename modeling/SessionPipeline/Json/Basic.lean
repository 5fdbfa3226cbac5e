import SessionPipeline.Decimal.Binary64
import SessionPipeline.Fields

/-!
JSON values. Integers of 64 bits stay apart from floating-point numbers, which are kept by their
bits; the fields of an object are in the order of their keys, each key once.
-/
namespace SessionPipeline

inductive Json
  | null
  | bool (b : Bool)
  | int (n : Int)
  | float (bits : UInt64)
  | str (s : String)
  | arr (items : List Json)
  | obj (fields : List (String × Json))
  deriving Inhabited, Repr

namespace Json

mutual
def same : Json → Json → Bool
  | null, null => true
  | bool a, bool b => a == b
  | int a, int b => a == b
  | float a, float b => a == b
  | str a, str b => a == b
  | arr a, arr b => sameItems a b
  | obj a, obj b => sameFields a b
  | _, _ => false
def sameItems : List Json → List Json → Bool
  | [], [] => true
  | a :: as, b :: bs => same a b && sameItems as bs
  | _, _ => false
def sameFields : List (String × Json) → List (String × Json) → Bool
  | [], [] => true
  | (k, a) :: as, (l, b) :: bs => k == l && same a b && sameFields as bs
  | _, _ => false
end

def eraseField (key : String) : List (String × Json) → List (String × Json)
  | [] => []
  | (k, v) :: rest => if key = k then rest else (k, v) :: eraseField key rest

/-- An object of the given fields, the last of a repeated key winning. -/
def object (fields : List (String × Json)) : Json :=
  obj (fields.foldl (fun sorted (k, v) => insertField k v sorted) [])

def field? : Json → String → Option Json
  | obj fields, key => fields.lookup key
  | _, _ => none

def strings (items : List String) : Json := arr (items.map str)

def ofNat (n : Nat) : Json := int n

/-- The value as a word, for any integer: one beyond the signed range wraps. -/
def asInt64? : Json → Option Int
  | int n => some (Int.bmod n UInt64.size)
  | _ => none

/-- The value as a size, for any number: integers wrap, fractions are cut off. -/
def asSize? : Json → Option UInt64
  | int n => some (n.emod UInt64.size).toNat.toUInt64
  | float bits => some ((Binary64.truncate bits).emod UInt64.size).toNat.toUInt64
  | _ => none

/-- The members of a value with their keys: fields by name, items by index, and a value that is
neither by itself, without a name. -/
def members : Json → List (String × Json)
  | obj fields => fields
  | arr items => items.zipIdx.map fun (item, i) => (toString i, item)
  | null => []
  | value => [("", value)]

def isObject : Json → Bool
  | obj _ => true
  | _ => false

def asString? : Json → Option String
  | str s => some s
  | _ => none

def asBool? : Json → Option Bool
  | bool b => some b
  | _ => none

mutual
/-- Merges a patch into a value: an object's fields are merged one by one, a null field removes,
and anything that is no object replaces. -/
def mergePatch (target : Json) : Json → Json
  | obj patch =>
    obj (mergeFields (match target with | obj fields => fields | _ => []) patch)
  | patch => patch
def mergeFields (fields : List (String × Json)) : List (String × Json) → List (String × Json)
  | [] => fields
  | (key, null) :: rest => mergeFields (eraseField key fields) rest
  | (key, value) :: rest =>
    mergeFields (insertField key (mergePatch ((fields.lookup key).getD null) value) fields) rest
end

end Json
end SessionPipeline
