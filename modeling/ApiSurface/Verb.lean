/-
This file holds the verbs of requests, the places in which a parameter travels and the kinds of answer
that an operation gives.
-/

import ApiSurface.Fault
import ApiSurface.Text.Case

namespace ApiSurface

/-- A verb that a path of a document may declare. -/
inductive Verb where
  | get
  | put
  | post
  | delete
  | options
  | head
  | patch
  | trace
  deriving DecidableEq, Repr, Inhabited

namespace Verb

/-- All verbs. -/
def all : List Verb := [.get, .put, .post, .delete, .options, .head, .patch, .trace]

/-- The verb in small letters, as documents write it. -/
def lower : Verb → String
  | .get => "get"
  | .put => "put"
  | .post => "post"
  | .delete => "delete"
  | .options => "options"
  | .head => "head"
  | .patch => "patch"
  | .trace => "trace"

/-- The verb in capital letters, as requests send it. -/
def upper : Verb → String
  | .get => "GET"
  | .put => "PUT"
  | .post => "POST"
  | .delete => "DELETE"
  | .options => "OPTIONS"
  | .head => "HEAD"
  | .patch => "PATCH"
  | .trace => "TRACE"

/-- Whether a request with the verb usually has a body. -/
def allowsBody : Verb → Bool
  | .post | .put | .patch | .delete => true
  | _ => false

/-- The verb that a word names in any case. -/
def ofWord? (word : String) : Option Verb :=
  all.find? fun verb => verb.lower == Text.folded word

/-- The verb that a word names, or the fault that it names none. -/
def parse (word : String) : Except Fault Verb :=
  match ofWord? word with
  | some verb => .ok verb
  | none => .error (.invalidArgument s!"unknown HTTP verb: '{word}'")

end Verb

/-- The place in which a parameter travels. -/
inductive Location where
  | path
  | query
  | body
  deriving DecidableEq, Repr, Inhabited

namespace Location

/-- The name of the place. -/
def name : Location → String
  | .path => "path"
  | .query => "query"
  | .body => "body"

/-- What a name is extended with when it is taken. -/
def suffix (location : Location) : String := "_" ++ location.name

end Location

/-- What kind of value the answer of an operation is. -/
inductive ReturnKind where
  | list
  | map
  | unknown
  deriving DecidableEq, Repr, Inhabited

namespace ReturnKind

/-- The name of the kind. -/
def name : ReturnKind → String
  | .list => "list"
  | .map => "map"
  | .unknown => "unknown"

/-- The kind that a name stands for. -/
def ofName? (name : String) : Option ReturnKind :=
  [ReturnKind.list, .map, .unknown].find? fun kind => kind.name == name

end ReturnKind

end ApiSurface
