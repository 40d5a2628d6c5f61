import Exemplar.Demo
import Std.Time.Format

/-!
# The command line

Runs the demonstration under the settings in the file that is named by the only argument, or under
the standard settings.
-/

namespace Exemplar.Demo

/-- The settings that the arguments ask for. -/
def loadSettings : List String → IO (Except String Settings)
  | [] => return .ok Settings.standard
  | path :: _ => do
    try
      return readSettings path (← IO.FS.readFile path)
    catch e => return .error ("reading config " ++ path ++ ": " ++ e.toString)

def now : IO Stamp := do
  let t ← Std.Time.Timestamp.now
  let nanos := t.toNanosecondsSinceUnixEpoch.val.toNat
  return ⟨nanos / 1000000000, nanos % 1000000000⟩

end Exemplar.Demo

/-- Runs the demonstration and returns its exit code. -/
def main (args : List String) : IO UInt32 := do
  let transcript := Exemplar.Demo.run (← Exemplar.Demo.loadSettings args) (← Exemplar.Demo.now)
  for line in transcript.lines do IO.println line
  for line in transcript.errors do IO.eprintln line
  return transcript.code
