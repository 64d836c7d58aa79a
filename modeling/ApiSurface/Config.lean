/-
This file holds the settings of the generator and of the documentation writer, and reads them from a
settings file. A file may set any of them and nothing else; what it does not set keeps its default.
-/

import ApiSurface.Decimal.Binary64
import ApiSurface.Fault
import ApiSurface.Toml.Reader

namespace ApiSurface

/-- The settings of the documentation writer. -/
structure DocgenConfig where
  /-- The model that writes. -/
  model : String := "claude-sonnet-4-5"
  /-- The variable of the environment that holds the key to the model. -/
  keyVariable : String := "ANTHROPIC_API_KEY"
  /-- How many functions are documented at a time. -/
  maxConcurrency : Nat := 4
  /-- How often a function is tried. -/
  maxAttempts : Nat := 3
  deriving DecidableEq, Repr, Inhabited

/-- The settings of the generator. -/
structure Config where
  /-- The name of the client class, if the title of the document is not to give it. -/
  className : Option String := none
  /-- The address of the service, if the document is not to give it. -/
  baseUrl : Option String := none
  /-- Whether the client is written in segments. -/
  split : Bool := false
  /-- Whether the client is also written in its intermediate form. -/
  emitIr : Bool := true
  /-- The settings of the documentation writer. -/
  docgen : DocgenConfig := {}
  deriving DecidableEq, Repr, Inhabited

/-- What a run of the documentation writer works with. -/
structure DocgenOptions where
  /-- How many functions are documented at a time, at least one. -/
  maxConcurrency : Nat
  /-- How often a function is tried, at least once. -/
  maxAttempts : Nat
  /-- How long to wait before trying again, in milliseconds. -/
  retryDelay : Nat := 500
  deriving DecidableEq, Repr, Inhabited

namespace DocgenConfig

/-- Refuses settings with which nothing would ever be written. -/
def validate (config : DocgenConfig) : Except Fault Unit :=
  if config.maxConcurrency = 0 then
    .error (.configuration "docgen.max_concurrency must be at least 1")
  else if config.maxAttempts = 0 then
    .error (.configuration "docgen.max_attempts must be at least 1")
  else .ok ()

/-- The options that settings stand for; counts of zero count as one. -/
def options (config : DocgenConfig) : DocgenOptions :=
  { maxConcurrency := max config.maxConcurrency 1
    maxAttempts := max config.maxAttempts 1 }

/-- Sets one setting of the documentation writer. -/
def set? (config : DocgenConfig) : String → Toml → Option DocgenConfig
  | "model", .text value => some { config with model := value }
  | "api_key_env", .text value => some { config with keyVariable := value }
  | "max_concurrency", .integer value => (count? value).map fun n => { config with maxConcurrency := n }
  | "max_attempts", .integer value => (count? value).map fun n => { config with maxAttempts := n }
  | _, _ => none
where
  /-- A count that fits into 64 bits. -/
  count? (value : Int) : Option Nat :=
    if 0 ≤ value && value < Decimal.twoTo 64 then some value.toNat else none

/-- The settings in the order in which an array gives their values. -/
def settingNames : List String := ["model", "api_key_env", "max_concurrency", "max_attempts"]

/-- The settings that a value stands for: a table sets them by name, an array in their order. -/
def ofToml? : Toml → Option DocgenConfig
  | .table _ entries => entries.foldlM (fun config entry => config.set? entry.1 entry.2) {}
  | .array items =>
    (settingNames.zip items).foldlM (fun config entry => config.set? entry.1 entry.2) {}
  | _ => none

end DocgenConfig

namespace Config

/-- Sets one setting. -/
def set? (config : Config) : String → Toml → Option Config
  | "class_name", .text value => some { config with className := some value }
  | "base_url", .text value => some { config with baseUrl := some value }
  | "split", .boolean value => some { config with split := value }
  | "emit_ir", .boolean value => some { config with emitIr := value }
  | "docgen", value => (DocgenConfig.ofToml? value).map fun docgen => { config with docgen }
  | _, _ => none

/-- Reads a settings file. -/
def parse (text : String) : Except Fault Config :=
  match Toml.parse? text with
  | none => .error (.malformed "toml" "not a settings file")
  | some entries =>
    match entries.foldlM (fun (config : Config) entry => config.set? entry.1 entry.2) {} with
    | some config => .ok config
    | none => .error (.malformed "toml" "unknown setting or wrong kind of value")

end Config

end ApiSurface
