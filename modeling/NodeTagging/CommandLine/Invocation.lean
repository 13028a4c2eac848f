import NodeTagging.Config.Basic
import NodeTagging.Path

/-!
# Invocations

The arguments of the command line are flags and options with a value. The value of an option is the
next argument, whatever it looks like, as long as it is not empty. Options may be repeated, and of
several values the last counts.
-/

namespace NodeTagging

/-- What the command line asks for. -/
structure Invocation where
  /-- The place of the configuration. -/
  config : String
  /-- Whether an engine is to write the dump anew. -/
  dump : Bool := false
  /-- Whether the user wants to know more. -/
  verbose : Bool := false
  /-- Whether the user wants to know how the program is called. -/
  help : Bool := false
deriving DecidableEq, Repr

/-- Why arguments are refused. -/
inductive UsageError where
  /-- The place of the configuration is announced, but not given. -/
  | missingConfig
  /-- An argument is no option. -/
  | unknownOption (argument : String)
deriving DecidableEq, Repr

/-- The error in words. -/
def UsageError.message : UsageError → String
  | .missingConfig => "Missing value for -c/--config"
  | .unknownOption argument => "Unknown option: " ++ argument

/-- What an argument announces. -/
inductive Switch where
  /-- The next argument is the place of the configuration. -/
  | config
  /-- An engine is to write the dump anew. -/
  | dump
  /-- The user wants to know more. -/
  | verbose
  /-- The user wants to know how the program is called. -/
  | help
deriving DecidableEq, Repr

/-- The switch of a given spelling. -/
def Switch.ofArgument? (argument : String) : Option Switch :=
  if argument = "-c" ∨ argument = "--config" then some .config
  else if argument = "--dump" then some .dump
  else if argument = "-v" ∨ argument = "--verbose" then some .verbose
  else if argument = "-h" ∨ argument = "--help" then some .help
  else none

namespace Invocation

/-- The invocation after the given one and more arguments, with `place` for the place that a value
    stands for. -/
def readFrom (place : String → String) (i : Invocation) :
    List String → Except UsageError Invocation
  | [] => .ok i
  | argument :: rest =>
    match Switch.ofArgument? argument with
    | none => .error (.unknownOption argument)
    | some .dump => readFrom place { i with dump := true } rest
    | some .verbose => readFrom place { i with verbose := true } rest
    | some .help => readFrom place { i with help := true } rest
    | some .config =>
      match rest with
      | [] => .error .missingConfig
      | value :: rest =>
        if value = "" then .error .missingConfig
        else readFrom place { i with config := place value } rest

/-- The invocation of a list of arguments, given in the directory `base`. -/
def read (workingDirectory base : String) (arguments : List String) :
    Except UsageError Invocation :=
  readFrom (Path.resolve workingDirectory base) { config := Path.join base Config.defaultFile }
    arguments

/-- How the program is called. -/
def helpText : String :=
  "Usage: node-marker-codegen [options]\n\n" ++
  "Generates node marker components, the marker dispatcher and the script-side\n" ++
  "classifier from the engine's reflection dump.\n\n" ++
  "Options:\n" ++
  "  -c, --config <path>   Generator config (default: ./generator.config.json)\n" ++
  "  --dump                Export a fresh reflection dump from the engine first\n" ++
  "  -v, --verbose         Verbose logging\n" ++
  "  -h, --help            Show this help\n"

end Invocation

end NodeTagging
