import SessionPipeline.Event
import SessionPipeline.Logging.Level
import SessionPipeline.Wire.Frame

/-!
Filters as data: what kind each is and the settings it carries. The behaviour of an application's own
filter is a piece of code that is kept elsewhere and named here by its number.
-/
namespace SessionPipeline

abbrev FilterId := Nat
abbrev CodeId := Nat

inductive Hook
  | preAdd
  | postAdd
  | preRemove
  | postRemove
  deriving DecidableEq, Repr, Inhabited

namespace Hook

def name : Hook → String
  | preAdd => "onPreAdd"
  | postAdd => "onPostAdd"
  | preRemove => "onPreRemove"
  | postRemove => "onPostRemove"

end Hook

structure LogSettings where
  logger : String
  level : EventKind → Logging.Level

namespace LogSettings

def defaultLogger : String := "Filter.logging"

def defaultLevel : EventKind → Logging.Level
  | .exceptionCaught => .warning
  | .filterWrite | .filterClose => .debug
  | _ => .info

def initial (logger : String) : LogSettings := ⟨logger, defaultLevel⟩

def setLevel (s : LogSettings) (event : EventKind) (level : Logging.Level) : LogSettings :=
  { s with level := fun e => if e = event then level else s.level e }

def setAllLevels (s : LogSettings) (level : Logging.Level) : LogSettings :=
  { s with level := fun _ => level }

end LogSettings

inductive Filter
  | noop
  | adapter
  | logging (settings : LogSettings)
  /-- Frames bytes, refusing to write or read a frame beyond a maximum. -/
  | codec (writeMaximum readMaximum : UInt64)
  | custom (label : String) (code : CodeId)

inductive FilterKind
  | noop
  | adapter
  | logging
  | codec
  | custom
  deriving DecidableEq, Repr

namespace Filter

instance : Inhabited Filter := ⟨noop⟩

def label : Filter → String
  | noop => "NoopFilter"
  | adapter => "FilterAdapter"
  | logging _ => "LoggingFilter"
  | codec .. => "ProtocolCodecFilter"
  | custom label _ => label

/-- A codec over an encoder and a decoder with these maximums; both must be there. -/
def codec? (writeMaximum readMaximum : Option UInt64) : Except Failure Filter :=
  match writeMaximum, readMaximum with
  | some writeMaximum, some readMaximum => .ok (codec writeMaximum readMaximum)
  | _, _ => .error (.invalidArgument "codec filter needs an encoder and a decoder")

/-- Changes the settings of a filter that logs; other filters have none. -/
def mapSettings (change : LogSettings → LogSettings) : Filter → Filter
  | logging settings => logging (change settings)
  | f => f

def isCodec : Filter → Bool
  | codec .. => true
  | _ => false

/-- Every filter is an adapter, and at most one kind more. -/
def isKind : Filter → FilterKind → Bool
  | _, .adapter => true
  | noop, .noop => true
  | logging _, .logging => true
  | codec .., .codec => true
  | custom .., .custom => true
  | _, _ => false

end Filter
end SessionPipeline
