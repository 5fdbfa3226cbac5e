import SessionPipeline.Logging.Pattern.Matching
import SessionPipeline.Logging.Pattern.Reader

/-!
Globs over logger names. A star stands for any run of bytes, a question mark for one byte and a dot
for itself; everything else is read as pattern text.
-/
namespace SessionPipeline.Logging

structure Glob where
  text : Bytes
  pattern : Pattern.Node
  deriving DecidableEq, Repr

namespace Glob

def expandByte (b : UInt8) : Bytes :=
  if b == Pattern.ascii '*' then Bytes.ofString ".*"
  else if b == Pattern.ascii '?' then Bytes.ofString "."
  else if b == Pattern.ascii '.' then Bytes.ofString "\\."
  else [b]

def expand (glob : Bytes) : Bytes := glob.flatMap expandByte

def read (text : Bytes) : Except Failure Glob := do
  return ⟨text, ← Pattern.read (expand text)⟩

def admits (glob : Glob) (name : Bytes) : Bool := Pattern.matchesAll glob.pattern name

end Glob
end SessionPipeline.Logging
