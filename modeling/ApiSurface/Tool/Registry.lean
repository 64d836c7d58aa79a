/-
This file keeps tools by name and calls them. A call checks the arguments, puts them over the values to
which leading parameters are bound, and adds what the registry holds for all tools where no argument has
the name. Only then does the tool get to work, so a refused call has no effect.
-/

import ApiSurface.DocBlock.Reader
import ApiSurface.Tool.Descriptor

namespace ApiSurface

open Json (Members)

/-- A tool that can be called. -/
structure RegisteredTool where
  /-- What callers learn about it. -/
  descriptor : ToolDescriptor
  /-- The model of its arguments. -/
  model : ArgumentModel
  /-- The values of the parameters that are bound. -/
  bound : Members
  /-- What it does with its arguments. -/
  handler : Members → Action
  deriving Inhabited

namespace RegisteredTool

/-- Makes a tool ready to be called. -/
def ofTool [SchemaLibrary] (tool : Tool) : Except ToolFault RegisteredTool := do
  let doc := DocBlock.parse tool.doc
  let model ← ArgumentModel.ofTool tool doc
  return ⟨.ofTool tool model doc, model, Members.ofList tool.boundArguments, tool.handler⟩

/-- The name of a tool. -/
def name (tool : RegisteredTool) : String := tool.descriptor.name

end RegisteredTool

/-- The tools that can be called, and the arguments that every one of them gets. -/
structure ToolRegistry where
  /-- The tools in the order in which they were registered. -/
  tools : List RegisteredTool
  /-- The arguments for every tool. -/
  context : Members
  deriving Inhabited

namespace ToolRegistry

/-- The registry without tools. -/
def empty : ToolRegistry := ⟨[], []⟩

/-- Adds an argument for every tool. -/
def withContext (registry : ToolRegistry) (key : String) (value : Json) : ToolRegistry :=
  { registry with context := registry.context.insert key value }

/-- The tool of a name. -/
def find? (registry : ToolRegistry) (name : String) : Option RegisteredTool :=
  registry.tools.find? fun tool => tool.name == name

/-- The descriptor of the tool of a name. -/
def descriptor? (registry : ToolRegistry) (name : String) : Option ToolDescriptor :=
  (registry.find? name).map RegisteredTool.descriptor

/-- The descriptors of all tools. -/
def descriptors (registry : ToolRegistry) : List ToolDescriptor :=
  registry.tools.map RegisteredTool.descriptor

/-- Adds a tool, whose name must be free. -/
def register [SchemaLibrary] (registry : ToolRegistry) (tool : Tool) :
    Except ToolFault ToolRegistry :=
  if (registry.find? tool.name).isSome then
    .error (.configuration tool.name "a tool with this name is already registered")
  else do
    let ready ← RegisteredTool.ofTool tool
    return { registry with tools := registry.tools ++ [ready] }

/-- Adds a tool if that is possible. -/
def registerOrSkip [SchemaLibrary] (registry : ToolRegistry) (tool : Tool) : ToolRegistry :=
  match registry.register tool with
  | .ok extended => extended
  | .error _ => registry

/-! ### Calls -/

/-- The arguments that a caller gives; null stands for none. -/
def argumentsOf (name : String) : Json → Except ToolFault Members
  | .object members => .ok members
  | .null => .ok []
  | other =>
    .error (.invalidArguments name [s!"arguments must be a JSON object, got {other.compact}"])

/-- What a tool gets: the bound values, then the checked arguments, then what is there for all. -/
def assemble (context bound checked : Members) : Members :=
  context.foldl (fun members entered => members.insertNew entered.1 entered.2)
    (bound.insertAll checked)

/-- The tool that a call reaches and what it gets, or why the call is refused. -/
def prepare (registry : ToolRegistry) (name : String) (arguments : Json) :
    Except ToolFault (RegisteredTool × Members) :=
  match registry.find? name with
  | none => .error (.notFound name)
  | some tool => do
    let given ← argumentsOf name arguments
    let checked ← tool.model.validate given
    return (tool, assemble registry.context tool.bound checked)

/-- Calls a tool. -/
def call (registry : ToolRegistry) (name : String) (arguments : Json) : Action :=
  match registry.prepare name arguments with
  | .ok (tool, members) => tool.handler members
  | .error fault => .finish (.error fault)

/-- The end of a call as a value, in which a fault is told apart from a result. -/
def structured : Except ToolFault Json → Json
  | .ok value => .object [("result", value)]
  | .error fault => fault.structured

end ToolRegistry

end ApiSurface
