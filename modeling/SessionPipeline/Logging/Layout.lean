import SessionPipeline.Logging.Record
import SessionPipeline.Logging.Timestamp

/-!
The two layouts of a record: a plain line of bracketed fields, and one JSON object. The texts of a
record are escaped there, each byte on its own, so that only printable ASCII is left; the texts that
the logging itself provides are written as they are.
-/
namespace SessionPipeline.Logging

inductive Layout
  | plain
  | json
  deriving DecidableEq, Repr, Inhabited

namespace Layout

def bytes (s : String) : Bytes := Bytes.ofString s

def bracketed (content : Bytes) : Bytes := bytes "[" ++ content ++ bytes "] "

def bracketedUnlessEmpty (label : String) (content : Bytes) : Bytes :=
  if content.isEmpty then [] else bracketed (bytes label ++ content)

def joined (separator : Bytes) : List Bytes → Bytes
  | [] => []
  | [part] => part
  | part :: rest => part ++ separator ++ joined separator rest

def plainLocation (r : Record) : Bytes :=
  match r.fileText with
  | some file =>
    if r.line > 0 then
      bracketed (file ++ bytes (":" ++ toString r.line) ++
        match r.functionText with
        | some function => bytes " " ++ function ++ bytes "()"
        | none => [])
    else []
  | none => []

def plainLine (r : Record) : Bytes :=
  let c := r.context
  bracketed (bytes (Timestamp.text r.timestamp))
    ++ bracketed (bytes r.level.name)
    ++ bracketed (bytes "T:" ++ r.threadText)
    ++ (if c.component == .root then [] else bracketed (bytes c.component.name))
    ++ bracketedUnlessEmpty "" r.logger
    ++ plainLocation r
    ++ (if c.session == 0 then [] else bracketed (bytes ("session:" ++ toString c.session.toNat)))
    ++ bracketedUnlessEmpty "filter:" c.filter
    ++ bracketedUnlessEmpty "event:" c.event
    ++ r.message
    ++ (if c.keyValues.entries.isEmpty then [] else
        bytes " \x7b" ++ joined (bytes ", ") (c.keyValues.entries.map fun (k, v) => k ++ bytes "=" ++ v)
          ++ bytes "\x7d")

def hexDigit (n : UInt8) : UInt8 := if n < 10 then n + 0x30 else n + 0x57

def escapeByte (b : UInt8) : Bytes :=
  if b == 0x22 then bytes "\\\""
  else if b == 0x5c then bytes "\\\\"
  else if b == 0x08 then bytes "\\b"
  else if b == 0x0c then bytes "\\f"
  else if b == 0x0a then bytes "\\n"
  else if b == 0x0d then bytes "\\r"
  else if b == 0x09 then bytes "\\t"
  else if 0x20 ≤ b && b ≤ 0x7e then [b]
  else bytes "\\u00" ++ [hexDigit (b / 16), hexDigit (b % 16)]

def escape (text : Bytes) : Bytes := text.flatMap escapeByte

inductive Value
  | verbatim (t : Bytes)
  | text (t : Bytes)
  | number (n : Int)
  | object (fields : List (Bytes × Bytes))
  deriving DecidableEq, Repr

def unescaped (t : Bytes) : Bytes := bytes "\"" ++ t ++ bytes "\""

def quoted (t : Bytes) : Bytes := unescaped (escape t)

def Value.render : Value → Bytes
  | verbatim t => unescaped t
  | text t => quoted t
  | number n => bytes (toString n)
  | object fields =>
    bytes "\x7b" ++ joined (bytes ",") (fields.map fun (k, v) => quoted k ++ bytes ":" ++ quoted v)
      ++ bytes "\x7d"

def optional (present : Bool) (name : String) (value : Value) : List (String × Value) :=
  if present then [(name, value)] else []

def jsonLocation (r : Record) : List (String × Value) :=
  match r.fileText with
  | some file =>
    [("file", .text file), ("line", .number r.line)] ++
      match r.functionText with
      | some function => [("function", .text function)]
      | none => []
  | none => []

def jsonFields (r : Record) : List (String × Value) :=
  let c := r.context
  [("timestamp", .verbatim (bytes (Timestamp.text r.timestamp))),
   ("level", .verbatim (bytes r.level.name)), ("logger", .text r.logger),
   ("thread", .verbatim r.threadText)]
    ++ optional (r.process > 0) "pid" (.number r.process)
    ++ optional (c.component != .root) "component" (.verbatim (bytes c.component.name))
    ++ jsonLocation r
    ++ optional (c.session != 0) "session_id" (.number c.session.toNat)
    ++ optional (!c.filter.isEmpty) "filter" (.text c.filter)
    ++ optional (!c.event.isEmpty) "event" (.text c.event)
    ++ [("message", .text r.message)]
    ++ optional (!c.keyValues.entries.isEmpty) "metadata" (.object c.keyValues.entries)

def jsonLine (r : Record) : Bytes :=
  bytes "\x7b" ++ joined (bytes ",") ((jsonFields r).map fun (name, value) =>
    unescaped (bytes name) ++ bytes ":" ++ value.render) ++ bytes "\x7d"

def format : Layout → Record → Bytes
  | plain, r => plainLine r
  | json, r => jsonLine r

end Layout
end SessionPipeline.Logging
