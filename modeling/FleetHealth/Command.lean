import FleetHealth.Composite.Codec
import FleetHealth.FleetFile
import FleetHealth.Service

/-!
The command: one pass over the members of a fleet file.

`Command.run` reads its options from the arguments and the environment, makes a roster from the
fleet file and a store with a fresh target, takes one pass, and answers the target as JSON. It is a
function of its surroundings, which `Surroundings` holds.
-/

namespace FleetHealth.Command

open FleetHealth.Time (Instant)

/-- What the command is run in: its arguments, the environment variables, the files and the time. -/
structure Surroundings where
  arguments : List String
  environment : String → Option String
  file : String → FleetFile.Found
  now : Instant

/-- What the command is told. -/
structure Options where
  fleetFile : String
  target : String
  deriving DecidableEq, Repr

/-- What comes of a run. -/
inductive Outcome
  /-- The document is printed. -/
  | printed (document : String)
  /-- Help was asked for. -/
  | help
  /-- The version was asked for. -/
  | version
  /-- Something went wrong; the text says what. -/
  | failed (text : String)
  /-- The arguments make no sense. -/
  | misused
  deriving DecidableEq, Repr

/-- The exit status. -/
def Outcome.status : Outcome → UInt32
  | printed _ | help | version => 0
  | failed _ => 1
  | misused => 2

/-! ### Arguments -/

/-- The options given as arguments. -/
structure Given where
  fleetFile : Option String
  target : Option String

/-- An option that takes a value. -/
inductive Flag
  | fleetFile
  | target

/-- The option with a long name. -/
def Flag.ofName? (name : List Char) : Option Flag :=
  if name = "fleet-file".toList then some .fleetFile
  else if name = "target-name".toList then some .target
  else none

/-- Notes the value of an option, which may be given once; a path may not be empty. -/
def Given.add (g : Given) (flag : Flag) (value : String) : Option Given :=
  match flag with
  | .fleetFile =>
    if g.fleetFile.isSome ∨ value.isEmpty then none else some { g with fleetFile := some value }
  | .target => if g.target.isSome then none else some { g with target := some value }

/-- Whether an argument can be the value of the option before it: one that begins with a hyphen is
an option itself, unless it is nothing else. -/
def isValue (argument : String) : Bool :=
  match argument.toList with
  | '-' :: _ :: _ => false
  | _ => true

/-- Reads the arguments from left to right; help, version and misuse end the reading. -/
def readArguments (g : Given) : List String → Except Outcome Given
  | [] => .ok g
  | argument :: more =>
    match argument.toList with
    | ['-', '-'] => if more.isEmpty then .ok g else .error .misused
    | '-' :: '-' :: long =>
      let name := long.takeWhile (· != '=')
      match Flag.ofName? name, long.dropWhile (· != '=') with
      | some flag, '=' :: value =>
        match g.add flag (String.ofList value) with
        | some g' => readArguments g' more
        | none => .error .misused
      | some flag, _ =>
        match more with
        | [] => .error .misused
        | value :: more =>
          if isValue value then
            match g.add flag value with
            | some g' => readArguments g' more
            | none => .error .misused
          else .error .misused
      | none, _ =>
        if long = "help".toList then .error .help
        else if long = "version".toList then .error .version
        else .error .misused
    | '-' :: 'h' :: _ => .error .help
    | '-' :: 'V' :: _ => .error .version
    | _ => .error .misused

/-- The options: arguments go before environment variables, and the target has a default. -/
def readOptions (s : Surroundings) : Except Outcome Options :=
  match readArguments ⟨none, none⟩ s.arguments with
  | .error o => .error o
  | .ok g =>
    let target := (g.target.or (s.environment "FLEET_TARGET_NAME")).getD Config.defaultTarget
    match g.fleetFile.or (s.environment "FLEET_FILE") with
    | none => .error .misused
    | some fleetFile => if fleetFile.isEmpty then .error .misused else .ok ⟨fleetFile, target⟩

/-! ### The run -/

/-- Why a run fails. -/
inductive Error
  | members (cause : Roster.Error)
  | pass (cause : PassError)
  | store (cause : Store.Error)
  deriving DecidableEq, Repr

/-- An error with its parts between brackets, for whoever runs the command. -/
def Error.describe : Error → String
  | members (.fleetFile text) => "Members(FleetFile(" ++ Text.quote text ++ "))"
  | members (.memberNotFound name) => "Members(MemberNotFound(" ++ Text.quote name ++ "))"
  | pass (.members text) => "Aggregator(MemberSource(" ++ Text.quote text ++ "))"
  | pass (.store cause) => "Aggregator(StatusStore(" ++ Text.quote cause.message ++ "))"
  | store .unavailable => "Store(Unavailable)"
  | store (.targetNotFound name) => "Store(TargetNotFound(" ++ Text.quote name ++ "))"
  | store (.conflict name expected actual) =>
    "Store(Conflict \x7b name: " ++ Text.quote name ++ ", expected: " ++
      toString expected.toNat ++ ", actual: " ++ toString actual.toNat ++ " \x7d)"

/-- The target after one pass over a roster, at a store that holds nothing else. -/
def passOver (roster : Roster) (target : String) (now : Instant) :
    Except Error (Option Target) :=
  let site : Site := { Site.new (.single target) roster with clock := now }
  match site.pass target with
  | (.error e, _) => .error (.pass e)
  | (.ok _, after) =>
    match after.store.get target with
    | .error e => .error (.store e)
    | .ok t => .ok t

/-- The document that options ask for. -/
def document (o : Options) (found : FleetFile.Found) (now : Instant) : Except Error String :=
  match Roster.ofFile found with
  | .error e => .error (.members e)
  | .ok roster =>
    (passOver roster o.target now).map ((Json.Codec.optional Target.codec).encode .pretty)

/-- Runs the command. -/
def run (s : Surroundings) : Outcome :=
  match readOptions s with
  | .error o => o
  | .ok o =>
    match document o (s.file o.fleetFile) s.now with
    | .error e => .failed ("Error: " ++ e.describe)
    | .ok d => .printed d

end FleetHealth.Command
