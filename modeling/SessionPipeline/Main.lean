import SessionPipeline.Echo
import Std.Time.DateTime.Timestamp

open SessionPipeline

/-!
The command line of the demonstration: an optional configuration file, and the lines of the session
on standard output and standard error.
-/

def readContent (path : String) : IO (Option String) := do
  try return some (← IO.FS.readFile path)
  catch _ => return none

def main (args : List String) : IO UInt32 := do
  let source : Echo.Source ← match args with
    | [] => pure none
    | path :: _ => do pure (some (path, ← readContent path))
  let now ← Std.Time.Timestamp.now
  let (code, seen) := Echo.run source
  for (stderr, line) in seen.filterMap (Echo.lineOf? now.toMillisecondsSinceUnixEpoch.toInt) do
    let out ← if stderr then IO.getStderr else IO.getStdout
    out.write ⟨(line ++ Bytes.ofString "\n").toArray⟩
  return code.toUInt32
