import Winding.Number.Decimal
import Winding.Text.Blank
import Winding.Text.Reported

/-!
# Arguments of the program

Options take one value each and are given at most once; a request for the help or the version ends
the reading of arguments (`Arguments.read`). There are no positional arguments.
-/

namespace Winding.Program

/-- An option that takes a value. -/
inductive OptionName where
  | configuration | dataDirectory | port | logLevel
deriving DecidableEq, Repr

/-- The option as it is written. -/
def OptionName.text : OptionName → String
  | .configuration => "--config <CONFIG>"
  | .dataDirectory => "--data-dir <DATA_DIR>"
  | .port => "--port <PORT>"
  | .logLevel => "--log-level <LOG_LEVEL>"

/-- How much is logged. -/
inductive LogLevel where
  | error | warn | info | debug | trace
deriving DecidableEq, Repr

/-- The level with a name, in any mixture of cases, or a number from 1 to 5. -/
def LogLevel.ofText? (s : String) : Option LogLevel :=
  match String.ofList (lowerAscii s.toList) with
  | "error" => some .error
  | "warn" => some .warn
  | "info" => some .info
  | "debug" => some .debug
  | "trace" => some .trace
  | _ =>
    match natOfText? s.toList with
    | some 1 => some .error
    | some 2 => some .warn
    | some 3 => some .info
    | some 4 => some .debug
    | some 5 => some .trace
    | _ => none

/-- The options that were given. -/
structure Options where
  configuration : Option String
  dataDirectory : Option String
  port : Option Nat
  logLevel : Option LogLevel
deriving DecidableEq, Repr

/-- No options. -/
def Options.empty : Options := ⟨none, none, none, none⟩

/-- The configuration file. -/
def Options.configurationPath (o : Options) : String := o.configuration.getD "configuration.toml"

/-- What the arguments ask for. -/
inductive Request where
  | help
  | version
  | run (options : Options)
deriving DecidableEq, Repr

/-- Why arguments are refused. -/
inductive ArgumentError where
  | unexpected (argument : String)
  | missingValue (option : OptionName)
  | invalidValue (option : OptionName) (value : String)
  | repeated (option : OptionName)
deriving DecidableEq, Repr

/-- The error in words. -/
def ArgumentError.message : ArgumentError → String
  | .unexpected argument => "unexpected argument '" ++ argument ++ "' found"
  | .missingValue option => "a value is required for '" ++ option.text ++ "' but none was supplied"
  | .invalidValue option value => "invalid value '" ++ value ++ "' for '" ++ option.text ++ "'"
  | .repeated option => "the argument '" ++ option.text ++ "' cannot be used multiple times"

instance : Reported ArgumentError where
  code
    | .unexpected _ => "Unexpected"
    | .missingValue _ => "MissingValue"
    | .invalidValue _ _ => "InvalidValue"
    | .repeated _ => "Repeated"
  message := ArgumentError.message

/-! ## Single arguments -/

/-- What an argument is by itself. -/
inductive Argument where
  | help
  | version
  /-- An option, with the value that is attached to it. -/
  | option (name : OptionName) (value : Option String)
  /-- Only positional arguments follow. -/
  | separator
  | other
deriving DecidableEq, Repr

/-- The option or request with a long name. -/
def Argument.ofLong (name : List Char) (value : Option String) : Argument :=
  match String.ofList name, value with
  | "config", _ => .option .configuration value
  | "data-dir", _ => .option .dataDirectory value
  | "port", _ => .option .port value
  | "log-level", _ => .option .logLevel value
  | "help", none => .help
  | "version", none => .version
  | _, _ => .other

/-- The value behind a single letter; an equals sign may stand before it. -/
def attached : List Char → Option String
  | [] => none
  | '=' :: value => some (String.ofList value)
  | value => some (String.ofList value)

/-- What an argument is by itself. -/
def Argument.ofText (s : String) : Argument :=
  match s.toList with
  | ['-', '-'] => .separator
  | '-' :: '-' :: long =>
    let name := long.takeWhile (· ≠ '=')
    .ofLong name (attached (long.drop name.length))
  | '-' :: 'c' :: value => .option .configuration (attached value)
  | '-' :: 'h' :: _ => .help
  | '-' :: 'V' :: _ => .version
  | _ => .other

/-- Whether an argument can be the value of the option before it. -/
def isValue (s : String) : Bool := s = "-" || s.toList.head? ≠ some '-'

/-! ## All arguments -/

/-- A path, which is not empty. -/
def path? (s : String) : Option String := if s.isEmpty then none else some s

/-- A port; zero may have a minus sign. -/
def port? (s : String) : Option Nat :=
  match s.toList with
  | '-' :: digits => (natOfDigits? digits).filter (· < 1)
  | cs => natBelow? UInt16.size cs

/-- The options with one more. -/
def Options.give (o : Options) (name : OptionName) (value : String) :
    Except ArgumentError Options :=
  let put {α : Type} (old new : Option α) (rest : Option α → Options) :
      Except ArgumentError Options :=
    if old.isSome then .error (.repeated name)
    else if new.isNone then .error (.invalidValue name value)
    else .ok (rest new)
  match name with
  | .configuration => put o.configuration (path? value) fun v => { o with configuration := v }
  | .dataDirectory => put o.dataDirectory (path? value) fun v => { o with dataDirectory := v }
  | .port => put o.port (port? value) fun v => { o with port := v }
  | .logLevel => put o.logLevel (LogLevel.ofText? value) fun v => { o with logLevel := v }

/-- Reads arguments after those that gave some options. -/
def Options.read (o : Options) : List String → Except ArgumentError Request
  | [] => .ok (.run o)
  | argument :: rest =>
    match Argument.ofText argument with
    | .help => .ok .help
    | .version => .ok .version
    | .other => .error (.unexpected argument)
    | .separator =>
      match rest with
      | [] => .ok (.run o)
      | positional :: _ => .error (.unexpected positional)
    | .option name (some value) =>
      match o.give name value with
      | .error e => .error e
      | .ok o => o.read rest
    | .option name none =>
      match rest with
      | [] => .error (.missingValue name)
      | value :: rest =>
        if isValue value then
          match o.give name value with
          | .error e => .error e
          | .ok o => o.read rest
        else .error (.missingValue name)

/-- Reads the arguments of the program. -/
def Request.ofArguments (arguments : List String) : Except ArgumentError Request :=
  Options.empty.read arguments

/-! ## Fixed texts -/

/-- The name and version of the program. -/
def versionText : String := "winder-host 0.1.0\n"

/-- The help. -/
def helpText : String :=
  "APA wire winder control host\n\n" ++
  "Usage: winder-host [OPTIONS]\n\n" ++
  "Options:\n" ++
  "  -c, --config <CONFIG>        Configuration file [default: configuration.toml]\n" ++
  "      --data-dir <DATA_DIR>    Overrides `machine.data_dir`\n" ++
  "      --port <PORT>            Overrides `ui.port`\n" ++
  "      --log-level <LOG_LEVEL>  [default: info]\n" ++
  "  -h, --help                   Print help\n" ++
  "  -V, --version                Print version\n"

end Winding.Program
