/-
This file holds documentation blocks: what a comment says about a function, sorted into a summary,
its arguments, its result, its failures and its tags. Absent parts are empty, never missing. Entries
are looked up by name, and writing an entry whose name is there replaces it in its place, so the
order in which names first appear is kept.
-/

import ApiSurface.Keyed

namespace ApiSurface

/-- What a block says about one argument. -/
structure DocBlock.Argument where
  /-- The name of the argument. -/
  name : String
  /-- What it is, on one line. -/
  description : String
  /-- The type in parentheses after the name, if there is one. -/
  typeHint : Option String
  deriving DecidableEq, Repr, Inhabited

/-- What a block says about one failure. -/
structure DocBlock.Failure where
  /-- The kind of the failure. -/
  kind : String
  /-- When it arises, on one line. -/
  description : String
  deriving DecidableEq, Repr, Inhabited

/-- A documentation block in its parts. -/
structure DocBlock where
  /-- The text before the first section. -/
  summary : String
  /-- The arguments in the order of their first appearance. -/
  arguments : List DocBlock.Argument
  /-- The result, on one line. -/
  returns : String
  /-- The failures in the order of their first appearance. -/
  failures : List DocBlock.Failure
  /-- The tags. -/
  tags : List String
  deriving DecidableEq, Repr, Inhabited

namespace DocBlock

/-- The block that says nothing. -/
def empty : DocBlock := ⟨"", [], "", [], []⟩

/-- Whether every part is empty. -/
def isEmpty (block : DocBlock) : Bool :=
  block.summary.isEmpty && block.arguments.isEmpty && block.returns.isEmpty &&
    block.failures.isEmpty && block.tags.isEmpty

/-- Writes an argument. -/
def putArgument (block : DocBlock) (argument : Argument) : DocBlock :=
  { block with arguments := Keyed.put Argument.name argument block.arguments }

/-- Writes a failure. -/
def putFailure (block : DocBlock) (failure : Failure) : DocBlock :=
  { block with failures := Keyed.put Failure.kind failure block.failures }

/-- The argument with a name. -/
def argument? (block : DocBlock) (name : String) : Option Argument :=
  Keyed.find? Argument.name name block.arguments

/-- The failure of a kind. -/
def failure? (block : DocBlock) (kind : String) : Option Failure :=
  Keyed.find? Failure.kind kind block.failures

end DocBlock

end ApiSurface
