/-
This file gives documentation blocks their JSON form, in which they are stored beside a client. Every
part is there, and a missing type hint is null; on reading it may be left out as well.
-/

import ApiSurface.DocBlock.Basic
import ApiSurface.Json.Value

namespace ApiSurface.DocBlock

/-- The form of an argument. -/
def Argument.toJson (argument : Argument) : Json :=
  .object [("name", .text argument.name), ("description", .text argument.description),
    ("type_hint", Json.ofText? argument.typeHint)]

/-- The form of a failure. -/
def Failure.toJson (failure : Failure) : Json :=
  .object [("kind", .text failure.kind), ("description", .text failure.description)]

/-- The form of a block. -/
def toJson (block : DocBlock) : Json :=
  .object [("summary", .text block.summary),
    ("args", .array (block.arguments.map Argument.toJson)),
    ("returns", .text block.returns),
    ("raises", .array (block.failures.map Failure.toJson)),
    ("tags", Json.ofTexts block.tags)]

end ApiSurface.DocBlock
