/-!
What can go wrong in a pipeline, as causes. `Failure.message` is the one place that words them;
`Failure.standard` separates the failures that a veto may quote from foreign values that carry no text.
-/
namespace SessionPipeline

inductive Failure
  | nameNotFound (name : String)
  | duplicateName (name : String)
  | vetoedAddition (name reason : String)
  | vetoedRemoval (name reason : String)
  | indexOutOfRange (index size : Nat)
  | concurrentChange
  | writeToClosed (session : Nat)
  | filterCreation (type reason : String)
  | encoding (reason : String)
  | decoding (reason : String)
  | chain (text : String)
  | invalidConfig (field reason : String)
  | malformedConfig (field : String)
  | invalidArgument (text : String)
  | length (text : String)
  | logic (text : String)
  | runtime (text : String)
  | exhausted
  | wrongType
  | badPattern
  | application (text : String)
  | foreign
  deriving DecidableEq, Repr, Inhabited

namespace Failure

def untilNul (s : String) : String := String.ofList (s.toList.takeWhile (· != '\x00'))

private def wording : Failure → String
  | nameNotFound name => "Filter not found: " ++ name
  | duplicateName name => "Other filter is using the same name: " ++ name
  | vetoedAddition name reason => "onPreAdd(): " ++ name ++ " rejected: " ++ reason
  | vetoedRemoval name reason => "onPreRemove(): " ++ name ++ " rejected: " ++ reason
  | indexOutOfRange index size =>
    "Index " ++ toString index ++ " out of range [0, " ++ toString size ++ ")"
  | concurrentChange => "Container was modified during iteration"
  | writeToClosed session => "Session " ++ toString session ++ " is closing or closed"
  | filterCreation type reason => "Failed to create filter '" ++ type ++ "': " ++ reason
  | encoding reason => "Encoding failed: " ++ reason
  | decoding reason => "Decoding failed: " ++ reason
  | chain text => text
  | invalidConfig field reason =>
    "Configuration validation failed for field '" ++ field ++ "': " ++ reason
  | malformedConfig field =>
    "Configuration validation failed for field '" ++ field ++ "': malformed JSON"
  | invalidArgument text => text
  | length text => text
  | logic text => text
  | runtime text => text
  | exhausted => "std::bad_alloc"
  | wrongType => "JSON value of another type"
  | badPattern => "malformed pattern"
  | application text => text
  | foreign => ""

def message (f : Failure) : String := untilNul f.wording

/-- Everything but a foreign value belongs to the standard family, so a hook's failure can be quoted. -/
def standard : Failure → Bool
  | foreign => false
  | _ => true

end Failure
end SessionPipeline
