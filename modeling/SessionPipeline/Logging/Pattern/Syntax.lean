/-!
Patterns over bytes: single bytes and classes of them, sequence and choice, repetition, groups that
capture and back-references to them, and the assertions about a position.
-/
namespace SessionPipeline.Logging.Pattern

inductive ClassName
  | alnum | alpha | blank | cntrl | digit | graph | lower | print | punct | space | upper | xdigit
  | word
  deriving DecidableEq, Repr, Inhabited

namespace ClassName

def isLower (b : UInt8) : Bool := 0x61 ≤ b && b ≤ 0x7a
def isUpper (b : UInt8) : Bool := 0x41 ≤ b && b ≤ 0x5a
def isDigit (b : UInt8) : Bool := 0x30 ≤ b && b ≤ 0x39
def isAlnum (b : UInt8) : Bool := isLower b || isUpper b || isDigit b
def isGraph (b : UInt8) : Bool := 0x21 ≤ b && b ≤ 0x7e

/-- Membership; a byte beyond ASCII belongs to no class. -/
def holds : ClassName → UInt8 → Bool
  | alnum, b => isAlnum b
  | alpha, b => isLower b || isUpper b
  | blank, b => b == 0x20 || b == 0x09
  | cntrl, b => b < 0x20 || b == 0x7f
  | digit, b => isDigit b
  | graph, b => isGraph b
  | lower, b => isLower b
  | print, b => b == 0x20 || isGraph b
  | punct, b => isGraph b && !isAlnum b
  | space, b => b == 0x20 || (0x09 ≤ b && b ≤ 0x0d)
  | upper, b => isUpper b
  | xdigit, b => isDigit b || (0x61 ≤ b && b ≤ 0x66) || (0x41 ≤ b && b ≤ 0x46)
  | word, b => isAlnum b || b == 0x5f

def table : List (String × ClassName) :=
  [("d", digit), ("w", word), ("s", space), ("alnum", alnum), ("alpha", alpha), ("blank", blank),
   ("cntrl", cntrl), ("digit", digit), ("graph", graph), ("lower", lower), ("print", print),
   ("punct", punct), ("space", space), ("upper", upper), ("xdigit", xdigit)]

end ClassName

inductive SetItem
  | byte (b : UInt8)
  | range (low high : UInt8)
  | named (name : ClassName)
  | notNamed (name : ClassName)
  | likeLetter (b : UInt8)
  deriving DecidableEq, Repr

def toLower (b : UInt8) : UInt8 := if ClassName.isUpper b then b + 0x20 else b

def signed (b : UInt8) : Int := b.toInt8.toInt

def SetItem.holds : SetItem → UInt8 → Bool
  | byte a, b => a == b
  | range low high, b => signed low ≤ signed b && signed b ≤ signed high
  | named name, b => name.holds b
  | notNamed name, b => !name.holds b
  | likeLetter a, b => toLower a == toLower b

inductive Node
  | empty
  | byte (b : UInt8)
  | anyByte
  | set (negated : Bool) (items : List SetItem)
  | seq (first second : Node)
  | alt (first second : Node)
  /-- At least `least` times and, when bounded, at most `extra` times more. -/
  | repeated (least : Nat) (extra : Option Nat) (body : Node)
  | group (index : Nat) (body : Node)
  | reference (index : Nat)
  | atStart
  | atEnd
  | wordBoundary (negated : Bool)
  deriving DecidableEq, Repr, Inhabited

end SessionPipeline.Logging.Pattern
