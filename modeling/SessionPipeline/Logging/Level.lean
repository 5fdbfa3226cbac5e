import SessionPipeline.Wire.Bytes

/-!
Severities and the parts of a pipeline that log. Severities are bytes, in rising order from debug to
emergency; off stands above them and is a threshold only.
-/
namespace SessionPipeline.Logging

structure Level where
  code : UInt8
  deriving DecidableEq, Repr, Inhabited

namespace Level

def debug : Level := ⟨0⟩
def info : Level := ⟨1⟩
def notice : Level := ⟨2⟩
def warning : Level := ⟨3⟩
def error : Level := ⟨4⟩
def critical : Level := ⟨5⟩
def alert : Level := ⟨6⟩
def emergency : Level := ⟨7⟩
def off : Level := ⟨8⟩

def table : List (String × String × Level) :=
  [("debug", "DEBUG", debug), ("info", "INFO", info), ("notice", "NOTICE", notice),
   ("warning", "WARNING", warning), ("error", "ERROR", error), ("critical", "CRITICAL", critical),
   ("alert", "ALERT", alert), ("emergency", "EMERGENCY", emergency), ("off", "OFF", off)]

def name (level : Level) : String :=
  match table.find? (·.2.2 == level) with
  | some (_, upper, _) => upper
  | none => "UNKNOWN"

/-- A severity is written all lower or all upper. -/
def parse? (text : String) : Option Level :=
  (table.find? fun (lower, upper, _) => text == lower || text == upper).map (·.2.2)

def parse (text : String) : Level := (parse? text).getD info

/-- Whether a record of this severity passes a threshold; nothing is recorded at off. -/
def passes (level threshold : Level) : Bool := level != off && threshold.code ≤ level.code

end Level

inductive Component
  | root
  | chain
  | filter
  | session
  | codec
  | config
  | other (code : Int)
  deriving DecidableEq, Repr, Inhabited

namespace Component

def known : List Component := [root, chain, filter, session, codec, config]

def ofCode (code : Int) : Component :=
  if code < 0 then other code else (known[code.toNat]?).getD (other code)

def name : Component → String
  | root => "Root"
  | chain => "Chain"
  | filter => "Filter"
  | session => "Session"
  | codec => "Codec"
  | config => "Config"
  | other _ => "Unknown"

def path (component : Component) (name : Bytes) : Bytes :=
  Bytes.ofString (component.name ++ ".") ++ name

end Component
end SessionPipeline.Logging
