import FleetHealth.Command
import Std.Time.DateTime.Timestamp

/-!
The entry of the command line program: it gathers the surroundings of a run and carries out its
outcome.
-/

namespace FleetHealth.Main

open FleetHealth.Command

/-- What help says. -/
def helpText : String :=
  "Usage: fleet-status [OPTIONS] --fleet-file <FLEET_FILE>\n\n" ++
    "Options:\n" ++
    "      --fleet-file <FLEET_FILE>    JSON file describing the fleet members\n" ++
    "      --target-name <TARGET_NAME>  Name of the composite target to write\n" ++
    "  -h, --help                       Print help\n" ++
    "  -V, --version                    Print version"

/-- Why a file cannot be read, from the code of the operating system, which may come negated. -/
def readError (code : UInt32) (e : IO.Error) : ReadError :=
  match (if code ≤ 0x7fffffff then code else 0 - code).toNat with
  | 2 => .missing
  | 20 => .notDirectory
  | 21 => .directory
  | 36 => .nameTooLong
  | _ => .other (toString e)

/-- What was found at a path. -/
def readFile (path : String) : IO FleetFile.Found := do
  try
    return .ok (← IO.FS.readBinFile path)
  catch e =>
    match e with
    | .noFileOrDirectory _ code _ | .inappropriateType _ code _ | .invalidArgument _ code _ =>
      return .error (readError code e)
    | e => return .error (.other (toString e))

/-- The present time. -/
def now : IO Time.Instant := do
  let t ← Std.Time.Timestamp.now
  let nanos := t.toNanosecondsSinceUnixEpoch.val
  return (Time.Instant.ofUnix? (nanos / 1000000000) (nanos % 1000000000).toNat).getD .epoch

/-- The surroundings of a run. Only the file that the options name is read. -/
def surroundings (arguments : List String) : IO Surroundings := do
  let fleetFile ← IO.getEnv "FLEET_FILE"
  let target ← IO.getEnv "FLEET_TARGET_NAME"
  let environment : String → Option String
    | "FLEET_FILE" => fleetFile
    | "FLEET_TARGET_NAME" => target
    | _ => none
  let blank : Surroundings :=
    { arguments, environment, file := fun _ => .error .missing, now := ← now }
  match readOptions blank with
  | .error _ => return blank
  | .ok o =>
    let found ← readFile o.fleetFile
    return { blank with file := fun _ => found }

end FleetHealth.Main

/-- Runs the command with the given arguments. -/
def main (arguments : List String) : IO UInt32 := do
  let outcome := FleetHealth.Command.run (← FleetHealth.Main.surroundings arguments)
  match outcome with
  | .printed document => IO.println document
  | .help => IO.println FleetHealth.Main.helpText
  | .version => IO.println "fleet-status 0.1.0"
  | .failed text => IO.eprintln text
  | .misused => IO.eprintln FleetHealth.Main.helpText
  return outcome.status
