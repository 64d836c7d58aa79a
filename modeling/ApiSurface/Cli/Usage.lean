/-
This file tells how commands are used: a line for each command and each option, and the version of the
program.
-/

namespace ApiSurface.Cli

/-- The name of the program. -/
def programName : String := "apiforge"

/-- The version of the program. -/
def programVersion : String := "0.1.0"

/-- What is printed when the version is asked for. -/
def versionText : String := s!"{programName} {programVersion}\n"

/-- The commands with what they do. -/
def commandLines : List (String × String) :=
  [("generate <SCHEMA>", "Generate a TypeScript client from an OpenAPI document"),
    ("split <SOURCE>", "Split a generated client into segments using its IR sidecar"),
    ("docgen <SOURCE>", "Insert model-written documentation above undocumented functions"),
    ("tools <SCHEMA>", "List tool descriptors for every operation of an OpenAPI document")]

/-- The options with what they stand for; behind the name of a command those that it alone knows. -/
def optionLines : List (String × String) :=
  [("-v, --verbose", "Enable verbose logging"),
    ("--format <FORMAT>", "Output format (json, text, pretty)"),
    ("--config <CONFIG>", "Configuration file"),
    ("-h, --help", "Print help"),
    ("-V, --version", "Print version"),
    ("generate -o, --output <OUTPUT>", "Client file to write"),
    ("generate --class-name <CLASS_NAME>", "Client class name"),
    ("generate --base-url <BASE_URL>", "Base URL baked into the client"),
    ("generate --split", "Split the client into per-topic segments"),
    ("generate --no-ir", "Do not write the IR sidecar"),
    ("split -o, --output <OUTPUT>", "Output directory"),
    ("docgen -m, --model <MODEL>", "Model identifier"),
    ("docgen --max-concurrency <COUNT>", "Functions documented at once"),
    ("tools --shape <SHAPE>", "Wire shape of each descriptor")]

/-- How wide the first column is. -/
def columnWidth : Nat := 36

/-- A line with two columns. -/
def columns (entry : String × String) : String :=
  let gap := String.ofList (List.replicate (columnWidth - entry.1.length) ' ')
  "  " ++ entry.1 ++ gap ++ entry.2 ++ "\n"

/-- How commands are used. -/
def usage : String :=
  s!"Usage: {programName} [OPTIONS] <COMMAND>\n\nCommands:\n" ++
    String.join (commandLines.map columns) ++ "\nOptions:\n" ++
    String.join (optionLines.map columns)

end ApiSurface.Cli
