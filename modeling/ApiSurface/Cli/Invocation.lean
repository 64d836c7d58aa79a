/-
This file reads command lines as invocations: one of the commands with its options. Some options are for
every command and may stand before the command or behind it; the latter counts. The settings file may
also be named by the environment, where an option for it is not given.
-/

import ApiSurface.Cli.Arguments

namespace ApiSurface.Cli

/-- The form in which tools are listed. -/
inductive ToolShape where
  | descriptor
  | openai
  | mcp
  | anthropic
  | structured
  deriving DecidableEq, Repr, Inhabited

namespace ToolShape

/-- All shapes. -/
def all : List ToolShape := [.descriptor, .openai, .mcp, .anthropic, .structured]

/-- The name of a shape. -/
def name : ToolShape → String
  | .descriptor => "descriptor"
  | .openai => "openai"
  | .mcp => "mcp"
  | .anthropic => "anthropic"
  | .structured => "structured"

/-- The shape of a name. -/
def ofName? (name : String) : Option ToolShape :=
  all.find? fun shape => shape.name == name

end ToolShape

/-- How a client is generated. -/
structure GenerateOptions where
  /-- The file that describes the API. -/
  schema : String
  /-- The file to write; without one the client is printed. -/
  output? : Option String
  /-- The name of the client class. -/
  className? : Option String
  /-- The address of the service. -/
  baseUrl? : Option String
  /-- Whether the client is written in segments. -/
  split : Bool
  /-- Whether the intermediate form is left out. -/
  noIr : Bool
  deriving DecidableEq, Repr, Inhabited

/-- A command. -/
inductive Command where
  /-- Generates a client. -/
  | generate (options : GenerateOptions)
  /-- Splits a generated client, into the directory if one is given. -/
  | split (source : String) (output? : Option String)
  /-- Documents the functions of a file. -/
  | docgen (source : String) (model? : Option String) (maxConcurrency? : Option Nat)
  /-- Lists the operations of an API as tools. -/
  | tools (schema : String) (shape : ToolShape)
  deriving DecidableEq, Repr, Inhabited

/-- A command with the options for all commands. -/
structure Invocation where
  /-- The command. -/
  command : Command
  /-- The format of the output. -/
  format : String
  /-- The settings file. -/
  config? : Option String
  deriving DecidableEq, Repr, Inhabited

/-- What a command line asks for. -/
inductive Wish where
  /-- To carry out a command. -/
  | invoke (invocation : Invocation)
  /-- To tell the version. -/
  | version
  /-- To tell how commands are used. -/
  | help
  deriving DecidableEq, Repr, Inhabited

/-! ### Options -/

/-- The option that tells how commands are used. -/
def helpRule : OptionRule := { long := "help", short? := some 'h', role := .stop }

/-- The options for every command. -/
def globalRules : List OptionRule :=
  [{ long := "verbose", short? := some 'v', role := .switch },
    { long := "format", role := .value .text }, { long := "config", role := .value .path }, helpRule]

/-- The options before a command. -/
def leadingRules : List OptionRule :=
  { long := "version", short? := some 'V', role := .stop } :: globalRules

/-- The option for the place of the output. -/
def outputRule : OptionRule := { long := "output", short? := some 'o', role := .value .path }

/-- The options of each command. -/
def rulesOf? : String → Option (List OptionRule)
  | "generate" =>
    some [outputRule, { long := "class-name", role := .value .text },
      { long := "base-url", role := .value .text }, { long := "split", role := .switch },
      { long := "no-ir", role := .switch }]
  | "split" => some [outputRule]
  | "docgen" =>
    some [{ long := "model", short? := some 'm', role := .value .text },
      { long := "max-concurrency", role := .value .count }]
  | "tools" => some [{ long := "shape", role := .value (.word (ToolShape.all.map ToolShape.name)) }]
  | _ => none

/-- The command of a name with what was given for it. -/
def commandOf? (name : String) (given : Given) : Option Command :=
  match name, given.texts with
  | _, [""] => none
  | "generate", [schema] =>
    some (.generate
      { schema
        output? := given.value? "output"
        className? := given.value? "class-name"
        baseUrl? := given.value? "base-url"
        split := given.has "split"
        noIr := given.has "no-ir" })
  | "split", [source] => some (.split source (given.value? "output"))
  | "docgen", [source] =>
    some (.docgen source (given.value? "model") ((given.value? "max-concurrency").bind count?))
  | "tools", [schema] =>
    some (.tools schema (((given.value? "shape").bind ToolShape.ofName?).getD .descriptor))
  | _, _ => none

/-! ### Command lines -/

/-- The variable of the environment that names the settings file. -/
def configVariable : String := "APIFORGE_CONFIG"

/-- The format of the output where no option gives one. -/
def defaultFormat : String := "pretty"

/-- Whether the environment names no settings file or one that could be; an empty name is refused unless
the option is given in both places, so that the environment is not looked at. -/
def environmentAccepted (leading own : Given) (named? : Option String) : Bool :=
  named? != some "" || (leading.has "config" && own.has "config")

/-- The invocation that a command with its options stands for. -/
def invocationOf (named? : Option String) (leading own : Given) (name : String) :
    Except Stopped Wish :=
  match commandOf? name own with
  | none => .error .misused
  | some command =>
    if environmentAccepted leading own named? then
      let option? (name : String) : Option String :=
        (own.value? name).orElse fun _ => leading.value? name
      .ok (.invoke
        { command
          format := (option? "format").getD defaultFormat
          config? := (option? "config").orElse fun _ => named? })
    else .error .misused

/-- What an option that ends the reading asks for. -/
def wishOf (option : String) : Wish :=
  if option = "version" then .version else .help

/-- Whether help is there for what follows the command for help: nothing, or a command. -/
def isHelpTopic : List String → Bool
  | [] => true
  | [topic] => topic = "help" || (rulesOf? topic).isSome
  | _ => false

/-- Reads what follows the name of a command. -/
def readCommand (named? : Option String) (leading : Given) (name : String)
    (arguments : List String) : Except Stopped Wish :=
  match rulesOf? name with
  | none =>
    if name = "help" && isHelpTopic arguments then .ok .help else .error .misused
  | some rules =>
    match Reading.all (rules ++ globalRules) false {} arguments with
    | (own, none) => invocationOf named? leading own name
    | (_, some (.asked option)) => .ok (wishOf option)
    | (_, some stopped) => .error stopped

/-- Reads a command line, where the environment may name a settings file. -/
def readCommandLine (named? : Option String) (arguments : List String) : Except Stopped Wish :=
  match Reading.all leadingRules true {} arguments with
  | (leading, some (.command name rest)) => readCommand named? leading name rest
  | (_, some (.asked option)) => .ok (wishOf option)
  | (_, _) => .error .misused

end ApiSurface.Cli
