/-
This file makes the client for a document: one method for each operation that can be called, in the
order of the document, each under a name of its own. An operation with a fault of its own is left out;
any other fault ends the whole.
-/

import ApiSurface.Client.Build
import ApiSurface.Config

namespace ApiSurface.Client

open Name (Allocator)

/-- Makes the method for one operation and gives it a name that is free. -/
def methodFor (names : Allocator) (operation : Operation) : Except Fault (Method × Allocator) := do
  let method ← buildMethod (← operation.extract)
  let (name, names) ← names.claimTiebreak method.name
  return ({ method with name }, names)

/-- Makes the methods for operations in their order. -/
def methodsFor (names : Allocator) : List Operation → Except Fault (List Method)
  | [] => .ok []
  | operation :: rest =>
    match methodFor names operation with
    | .ok (method, names) => (methodsFor names rest).map (method :: ·)
    | .error fault => if fault.isOperationScoped then methodsFor names rest else .error fault

/-- Makes the client for a document. -/
def generate (document : OpenApi.Document) (config : Config) : Except Fault Client := do
  let methods ← methodsFor .forMethods (Operation.ofDocument document)
  return {
    className := config.className.getD (Name.ofClient document.title)
    title := document.title
    baseUrl := config.baseUrl.getD document.baseUrl
    methods }

end ApiSurface.Client
