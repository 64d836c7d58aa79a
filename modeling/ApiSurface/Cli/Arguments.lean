/-
This file reads the arguments of a command by the usual rules. An option has a long name and perhaps a
short one; it is a switch or takes a value, which stands behind an equals sign, or directly behind the
short name, or is the next argument. Switches with short names may be written together. Behind two
dashes no argument is an option. No option may be given twice, and a value of its own argument may not
look like an option.
-/

import ApiSurface.Json.Pointer
import ApiSurface.Text.Search

namespace ApiSurface.Cli

/-- Which values an option takes. -/
inductive ValueKind where
  /-- Any text. -/
  | text
  /-- A text that is not empty. -/
  | path
  /-- A number below `2 ^ 64`. -/
  | count
  /-- One of the words. -/
  | word (words : List String)
  deriving DecidableEq, Repr, Inhabited

/-- What an option stands for. -/
inductive OptionRole where
  /-- A switch. -/
  | switch
  /-- An option with a value. -/
  | value (kind : ValueKind)
  /-- An option that ends the reading at once, and that something else is done for. -/
  | stop
  deriving DecidableEq, Repr, Inhabited

/-- An option that a command knows. -/
structure OptionRule where
  /-- Its long name. -/
  long : String
  /-- Its short name. -/
  short? : Option Char := none
  /-- What it stands for. -/
  role : OptionRole
  deriving DecidableEq, Repr, Inhabited

/-- Why arguments are not read to their end. -/
inductive Stopped where
  /-- They break the rules. -/
  | misused
  /-- There was an option that ends the reading. -/
  | asked (option : String)
  /-- There was a text that is no option where a command is expected. -/
  | command (name : String) (rest : List String)
  deriving DecidableEq, Repr, Inhabited

/-- What arguments say. -/
structure Given where
  /-- The options, a switch with an empty value. -/
  options : List (String × String) := []
  /-- The texts that are no options. -/
  texts : List String := []
  deriving DecidableEq, Repr, Inhabited

/-- The value of an option. -/
def Given.value? (given : Given) (name : String) : Option String :=
  given.options.lookup name

/-- Whether an option is given. -/
def Given.has (given : Given) (name : String) : Bool :=
  (given.value? name).isSome

/-! ### Values -/

/-- The number that a text stands for, if it is below `2 ^ 64`. A plus sign may come first. -/
def count? (text : String) : Option Nat :=
  let digits := match text.toList with
    | '+' :: rest => rest
    | digits => digits
  let value := Json.natOfDigits digits
  if !digits.isEmpty && digits.all Text.isDigit && value < Decimal.twoTo 64 then some value else none

/-- Whether a text is a value of a kind. -/
def ValueKind.accepts (kind : ValueKind) (text : String) : Bool :=
  match kind with
  | .text => true
  | .path => !text.isEmpty
  | .count => (count? text).isSome
  | .word words => words.contains text

/-! ### Options -/

/-- A reading in progress: what was found, the option that waits for its value, and whether no further
argument is an option. -/
structure Reading where
  given : Given := {}
  waiting : Option (String × ValueKind) := none
  textsOnly : Bool := false
  deriving Inhabited

namespace Reading

/-- Adds an option, which must be new. -/
def add (reading : Reading) (name value : String) : Except Stopped Reading :=
  if reading.given.has name then .error .misused
  else
    let given := reading.given
    .ok { reading with given := { given with options := given.options ++ [(name, value)] } }

/-- Adds an option with a value, which must be of the kind. -/
def addValue (reading : Reading) (name : String) (kind : ValueKind) (value : String) :
    Except Stopped Reading :=
  if kind.accepts value then reading.add name value else .error .misused

/-- Reads a long name, behind which a value may stand. -/
def long (rules : List OptionRule) (reading : Reading) (text : List Char) :
    Except Stopped Reading :=
  let (name, value?) := match Text.splitFirst? ['='] text with
    | some (name, value) => (String.ofList name, some (String.ofList value))
    | none => (String.ofList text, none)
  match rules.find? fun rule => rule.long == name with
  | none => .error .misused
  | some rule =>
    match rule.role, value? with
    | .switch, none => reading.add name ""
    | .stop, none => .error (.asked name)
    | .value kind, some value => reading.addValue name kind value
    | .value kind, none => .ok { reading with waiting := some (name, kind) }
    | _, some _ => .error .misused

/-- Reads short names that are written together; the first that takes a value takes all that follows. -/
def short (rules : List OptionRule) (reading : Reading) : List Char → Except Stopped Reading
  | [] => .ok reading
  | character :: rest =>
    match rules.find? fun rule => rule.short? == some character with
    | none => .error .misused
    | some rule =>
      match rule.role, rest with
      | .switch, _ => (reading.add rule.long "").bind fun reading => short rules reading rest
      | .stop, _ => .error (.asked rule.long)
      | .value kind, [] => .ok { reading with waiting := some (rule.long, kind) }
      | .value kind, '=' :: value => reading.addValue rule.long kind (String.ofList value)
      | .value kind, value => reading.addValue rule.long kind (String.ofList value)

/-- Reads a text that is no option. Where a command is expected, it names one, and `rest` is for it. -/
def text (expectsCommand : Bool) (reading : Reading) (rest : List String) (argument : String) :
    Except Stopped Reading :=
  if expectsCommand then
    if reading.textsOnly then .error .misused else .error (.command argument rest)
  else
    let given := reading.given
    .ok { reading with given := { given with texts := given.texts ++ [argument] } }

/-- Reads an argument. -/
def argument (rules : List OptionRule) (expectsCommand : Bool) (reading : Reading)
    (rest : List String) (argument : String) : Except Stopped Reading :=
  if reading.textsOnly then reading.text expectsCommand rest argument
  else
    match argument.toList, reading.waiting with
    | ['-', '-'], none => .ok { reading with textsOnly := true }
    | '-' :: '-' :: name, none => reading.long rules name
    | '-' :: first :: names, none => reading.short rules (first :: names)
    | '-' :: _ :: _, some _ => .error .misused
    | _, some (name, kind) => { reading with waiting := none }.addValue name kind argument
    | _, none => reading.text expectsCommand rest argument

/-- Reads arguments to their end, where no option may wait for its value. What was found before a
command is kept with it. -/
def all (rules : List OptionRule) (expectsCommand : Bool) (reading : Reading) :
    List String → Given × Option Stopped
  | [] => (reading.given, if reading.waiting.isSome then some .misused else none)
  | first :: rest =>
    match reading.argument rules expectsCommand rest first with
    | .ok reading => all rules expectsCommand reading rest
    | .error stopped => (reading.given, some stopped)

end Reading

end ApiSurface.Cli
