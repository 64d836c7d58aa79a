/-
This file holds the values of a settings file and builds its tables from its statements. A table knows
how it came about, because that decides whether a later statement may add to it: keys with dots may
add to a table that such keys made, a header may complete a table that longer headers implied, and
nothing else is ever written twice.
-/

namespace ApiSurface

/-- How a table of a settings file came about. -/
inductive Toml.Origin where
  /-- Written between braces. -/
  | inline
  /-- Made by a key with dots. -/
  | dotted
  /-- Opened by a header of its own. -/
  | header
  /-- Implied by a longer header. -/
  | implied
  deriving DecidableEq, Repr, Inhabited

/-- A value of a settings file; only the kinds that a setting can have. -/
inductive Toml where
  | text (value : String)
  | integer (value : Int)
  | boolean (value : Bool)
  | array (items : List Toml)
  | table (origin : Toml.Origin) (entries : List (String × Toml))
  deriving Repr, Inhabited

namespace Toml

/-- The entries of a table, in the order in which they were written. -/
abbrev Entries := List (String × Toml)

/-- A statement of a settings file. -/
inductive Statement where
  /-- A key and its value. -/
  | assign (path : List String) (value : Toml)
  /-- The header of a table. -/
  | header (path : List String)
  /-- The header of a further table of an array. -/
  | arrayHeader (path : List String)
  deriving Repr, Inhabited

/-- Replaces the entry with a key, which is there. -/
def replace (entries : Entries) (key : String) (value : Toml) : Entries :=
  entries.map fun entry => if entry.1 = key then (key, value) else entry

/-- Writes a value under a key with dots. -/
def assign (entries : Entries) (value : Toml) : List String → Option Entries
  | [] => none
  | [key] => if (entries.lookup key).isSome then none else some (entries ++ [(key, value)])
  | key :: rest =>
    match entries.lookup key with
    | none => do return entries ++ [(key, .table .dotted (← assign [] value rest))]
    | some (.table .dotted inner) => do
      return replace entries key (.table .dotted (← assign inner value rest))
    | some _ => none

/-- Changes the entries of the table that a header leads to, making the tables on the way. In an array
of tables the way leads into its last one. -/
def under (change : Entries → Option Entries) (entries : Entries) : List String → Option Entries
  | [] => change entries
  | key :: rest =>
    match entries.lookup key with
    | none => do return entries ++ [(key, .table .implied (← under change [] rest))]
    | some (.table .inline _) => none
    | some (.table origin inner) => do
      return replace entries key (.table origin (← under change inner rest))
    | some (.array items) =>
      match items.getLast? with
      | some (.table .header inner) => do
        let changed ← under change inner rest
        return replace entries key (.array (items.dropLast ++ [.table .header changed]))
      | _ => none
    | some _ => none

/-- Opens the table that a header names. -/
def openTable (key : String) (entries : Entries) : Option Entries :=
  match entries.lookup key with
  | none => some (entries ++ [(key, .table .header [])])
  | some (.table .implied inner) => some (replace entries key (.table .header inner))
  | some _ => none

/-- Adds a table to the array that a header names. -/
def openArrayTable (key : String) (entries : Entries) : Option Entries :=
  match entries.lookup key with
  | none => some (entries ++ [(key, .array [.table .header []])])
  | some (.array items) =>
    match items.getLast? with
    | some (.table .header _) => some (replace entries key (.array (items ++ [.table .header []])))
    | _ => none
  | some _ => none

/-- Carries out statements one after the other; `current` is the table of the last header. -/
def build (entries : Entries) (current : List String) : List Statement → Option Entries
  | [] => some entries
  | .assign path value :: rest => do
    build (← under (fun inner => assign inner value path) entries current) current rest
  | .header path :: rest => do
    let key ← path.getLast?
    build (← under (openTable key) entries path.dropLast) path rest
  | .arrayHeader path :: rest => do
    let key ← path.getLast?
    build (← under (openArrayTable key) entries path.dropLast) path rest

end Toml

end ApiSurface
