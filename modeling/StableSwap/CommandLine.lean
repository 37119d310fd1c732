import StableSwap.Document.Toml.Reader
import StableSwap.Simulation.Document

/-!
# The command line

    pool-sim --config FILE [--log-filter FILTER] COMMAND

where the command is `state`, `swap`, `join-proportional` or `exit-proportional` with its own
options. An option is written `--name value` or `--name=value` and given once; in the first form the
value may not begin with a dash, unless it is a lone dash. `--config` and `--log-filter` may come
from the environment instead.

Arguments are read from the left, and the first that is wrong or asks for help decides. An option
with a value in an argument of its own is checked late: when the next option comes, or at the end.
A command is read before the option in front of it is checked.

* `parse` turns arguments into an `Invocation`.
* `execute` runs an invocation on the contents of files.
-/

namespace StableSwap.CommandLine

/-- Why arguments are no invocation. -/
inductive UsageError where
  | help
  | unexpected (argument : String)
  | missingValue (option : String)
  | repeated (option : String)
  | invalidValue (option value : String)
  | missingOption (option : String)
  | missingCommand
  deriving DecidableEq

/-- The usage in brief. -/
def usage : String :=
  "Usage: pool-sim --config FILE [--log-filter FILTER] COMMAND\n\n" ++
  "Commands:\n" ++
  "  state\n" ++
  "  swap --token-in ADDRESS --token-out ADDRESS --amount AMOUNT [--given-out] [--limit LIMIT]\n" ++
  "  join-proportional --bpt-out AMOUNT\n" ++
  "  exit-proportional --bpt-in AMOUNT\n"

/-- The wording of a reason. -/
def UsageError.message : UsageError → String
  | .help => usage
  | .unexpected argument => "error: unexpected argument '" ++ argument ++ "' found"
  | .missingValue option => "error: a value is required for '--" ++ option ++ "'"
  | .repeated option => "error: the argument '--" ++ option ++ "' cannot be used multiple times"
  | .invalidValue option value =>
    "error: invalid value '" ++ value ++ "' for '--" ++ option ++ "'"
  | .missingOption option => "error: the argument '--" ++ option ++ "' is required"
  | .missingCommand => "error: a subcommand is required"

/-! ### Values -/

/-- What the value of an option has to be. -/
inductive ValueKind where
  | text
  /-- A text that is not empty. -/
  | path
  | amount
  | address

/-- An amount. -/
def amountValue (option text : String) : Except UsageError Amount :=
  (Amount.ofDecimal text).mapError fun _ => .invalidValue option text

/-- An address. -/
def addressValue (option text : String) : Except UsageError Address :=
  match Address.ofWord text with
  | some address => .ok address
  | none => .error (.invalidValue option text)

/-- A path. -/
def pathValue (option text : String) : Except UsageError String :=
  if text = "" then .error (.invalidValue option text) else .ok text

/-- Checks the value of an option. -/
def ValueKind.check (option text : String) : ValueKind → Except UsageError Unit
  | .text => .ok ()
  | .path => (pathValue option text).map fun _ => ()
  | .amount => (amountValue option text).map fun _ => ()
  | .address => (addressValue option text).map fun _ => ()

/-! ### Options -/

/-- The options of a command. -/
structure Options where
  /-- Those with a value, and what it has to be. -/
  valued : List (String × ValueKind)
  /-- Those without. -/
  flags : List String

/-- The options read so far, with their values. -/
structure Given where
  /-- Those that are checked. -/
  checked : List (String × String)
  /-- The last one, if it is still to be checked. -/
  pending : Option (String × String)

namespace Given

/-- No options. -/
def empty : Given := ⟨[], none⟩

/-- The value of an option. -/
def value? (given : Given) (name : String) : Option String := given.checked.lookup name

/-- Adds an option, which must be new. -/
def add (given : Given) (name value : String) : Except UsageError Given :=
  if (given.value? name).isSome then .error (.repeated name)
  else .ok { given with checked := (name, value) :: given.checked }

/-- Adds an option, which must be new and whose value must be of its kind. -/
def addValued (options : Options) (given : Given) (name value : String) :
    Except UsageError Given := do
  let given ← given.add name value
  match options.valued.lookup name with
  | some kind => do
    kind.check name value
    return given
  | none => .error (.unexpected name)

/-- Checks the option that is still to be checked. -/
def settle (options : Options) (given : Given) : Except UsageError Given :=
  match given.pending with
  | none => .ok given
  | some (name, value) => addValued options { given with pending := none } name value

/-- The value of an option that has to be given. -/
def need (given : Given) (name : String) : Except UsageError String :=
  match given.value? name with
  | some value => .ok value
  | none => .error (.missingOption name)

/-- The amount of an option that has to be given. -/
def amount (given : Given) (name : String) : Except UsageError Amount :=
  given.need name >>= amountValue name

/-- The address of an option that has to be given. -/
def address (given : Given) (name : String) : Except UsageError Address :=
  given.need name >>= addressValue name

/-- The amount of an option that may be given. -/
def amount? (given : Given) (name : String) : Except UsageError (Option Amount) :=
  match given.value? name with
  | some text => (amountValue name text).map some
  | none => .ok none

end Given

/-- Whether an argument has the form of an option. -/
def isDashed (argument : String) : Bool :=
  argument.startsWith "-" && argument != "-"

/-- The name of a long option and the value attached to it. -/
def splitOption (argument : String) : String × Option String :=
  let body := argument.toList.drop 2
  let name := String.ofList (body.takeWhile (· != '='))
  match body.dropWhile (· != '=') with
  | [] => (name, none)
  | _ :: value => (name, some (String.ofList value))

/-- Reads options up to the first argument that is none. That argument and all behind it are
returned. Behind `--` there are no options, and no argument is expected. -/
def readOptions (options : Options) : Given → List String → Except UsageError (Given × List String)
  | given, [] => .ok (given, [])
  | given, argument :: rest =>
    if argument = "--" then
      match rest with
      | [] => .ok (given, [])
      | next :: _ => .error (.unexpected next)
    else if argument.startsWith "--" then
      match splitOption argument with
      | (name, some value) => do
        if (options.valued.lookup name).isSome then
          let given ← given.settle options
          let given ← given.addValued options name value
          readOptions options given rest
        else
          .error (.unexpected argument)
      | (name, none) =>
        if name = "help" then do
          let _ ← given.settle options
          .error .help
        else if options.flags.contains name then do
          let given ← given.settle options
          let given ← given.add name ""
          readOptions options given rest
        else if (options.valued.lookup name).isSome then do
          let given ← given.settle options
          match rest with
          | [] => .error (.missingValue name)
          | value :: rest =>
            if isDashed value then .error (.missingValue name)
            else readOptions options { given with pending := some (name, value) } rest
        else
          .error (.unexpected argument)
    else if isDashed argument then
      if argument.startsWith "-h" then do
        let _ ← given.settle options
        .error .help
      else
        .error (.unexpected argument)
    else
      .ok (given, argument :: rest)

/-! ### Commands -/

/-- The options of the commands, by name. -/
def commands : List (String × Options) :=
  [("state", ⟨[], []⟩),
    ("swap",
      ⟨[("token-in", .address), ("token-out", .address), ("amount", .amount), ("limit", .amount)],
        ["given-out"]⟩),
    ("join-proportional", ⟨[("bpt-out", .amount)], []⟩),
    ("exit-proportional", ⟨[("bpt-in", .amount)], []⟩)]

/-- The command with a name and options. -/
def commandOf (name : String) (given : Given) : Except UsageError Command :=
  match name with
  | "state" => .ok .state
  | "swap" => do
    let tokenIn ← given.address "token-in"
    let tokenOut ← given.address "token-out"
    let amount ← given.amount "amount"
    let limit ← given.amount? "limit"
    return .swap tokenIn tokenOut amount (given.value? "given-out").isSome limit
  | "join-proportional" => do
    let sharesOut ← given.amount "bpt-out"
    return .joinProportional sharesOut
  | "exit-proportional" => do
    let sharesIn ← given.amount "bpt-in"
    return .exitProportional sharesIn
  | name => .error (.unexpected name)

/-- Reads the options of a command, behind which nothing is expected. -/
def readCommand (name : String) (options : Options) (arguments : List String) :
    Except UsageError Command := do
  match ← readOptions options .empty arguments with
  | (given, []) => do
    let given ← given.settle options
    commandOf name given
  | (_, extra :: _) => .error (.unexpected extra)

/-- The arguments of `help`: at most one name of a command. -/
def readHelp : List String → UsageError
  | [] => .help
  | [name] =>
    if name = "help" ∨ (commands.lookup name).isSome then .help else .unexpected name
  | _ :: extra :: _ => .unexpected extra

/-! ### Invocations -/

/-- What the program is to do. -/
structure Invocation where
  /-- The path of the file with the simulation. -/
  config : String
  command : Command

/-- The options in front of the command. -/
def generalOptions : Options := ⟨[("config", .path), ("log-filter", .text)], []⟩

/-- The path of the file with the simulation: from the options, else from the environment. -/
def configPath (given : Given) (environment : String → Option String) :
    Except UsageError String :=
  match (given.value? "config").or (environment "CONFIG") with
  | some path => pathValue "config" path
  | none => .error (.missingOption "config")

/-- Reads the arguments of the program. -/
def parse (arguments : List String) (environment : String → Option String) :
    Except UsageError Invocation := do
  match ← readOptions generalOptions .empty arguments with
  | (given, []) => do
    let _ ← given.settle generalOptions
    .error .missingCommand
  | (given, name :: rest) =>
    if name = "help" then
      .error (readHelp rest)
    else
      match commands.lookup name with
      | none => .error (.unexpected name)
      | some options => do
        let command ← readCommand name options rest
        let given ← given.settle generalOptions
        let config ← configPath given environment
        return ⟨config, command⟩

/-- Why an invocation has no report. -/
inductive Failure where
  | unreadable (path : String)
  | noDocument (path : String)
  | noSimulation (path : String) (cause : Document.ReadError)
  | simulation (cause : SimulationError)

namespace Failure

/-- The wording of a reason. -/
def message : Failure → String
  | unreadable path => "failed to read config file " ++ path
  | noDocument path => "failed to parse config file " ++ path
  | noSimulation path cause => "failed to parse config file " ++ path ++ ": " ++ cause.message
  | simulation cause => cause.message

/-- Whether it was an operation of the pool that failed, and one that may succeed another time. -/
def isRecoverable : Failure → Bool
  | simulation cause =>
    match cause.poolError? with
    | some e => e.isRecoverable
    | none => false
  | _ => false

end Failure

/-- Runs an invocation, given the contents of files. -/
def execute (contents : String → Option String) (invocation : Invocation) :
    Except Failure Report :=
  match contents invocation.config with
  | none => .error (.unreadable invocation.config)
  | some text =>
    match Document.Toml.ofText? text with
    | none => .error (.noDocument invocation.config)
    | some document => do
      let sim ← (Document.readSimulation document).mapError (.noSimulation invocation.config)
      (sim.run invocation.command).mapError .simulation

/-- How the program ends. -/
inductive Ending where
  /-- With a report. -/
  | report (report : Report)
  /-- Without one, as the arguments ask for none or are wrong. -/
  | usage (error : UsageError)
  /-- Without one, as running failed. -/
  | failure (failure : Failure)

/-- The exit code of an ending. -/
def Ending.exitCode : Ending → Nat
  | .report _ => 0
  | .usage .help => 0
  | .usage _ => 2
  | .failure _ => 1

/-- Runs the program. -/
def run (arguments : List String) (environment : String → Option String)
    (contents : String → Option String) : Ending :=
  match parse arguments environment with
  | .error error => .usage error
  | .ok invocation =>
    match execute contents invocation with
    | .ok report => .report report
    | .error failure => .failure failure

end StableSwap.CommandLine
