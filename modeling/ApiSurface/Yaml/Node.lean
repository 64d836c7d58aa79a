/-
This file reads the tokens of a YAML text as a tree of nodes: scalars, sequences and mappings with
their anchors and tags, and aliases. Tags are expanded here by the directives of the document. A text
holds at most one document.
-/

import ApiSurface.Yaml.Token

namespace ApiSurface.Yaml

/-- What stands before the content of a node. -/
structure Properties where
  /-- The name by which aliases refer to the node. -/
  anchor : Option String
  /-- The expanded tag. -/
  tag : Option String
  deriving DecidableEq, Repr, Inhabited

/-- A node of a document. -/
inductive Node where
  | scalar (properties : Properties) (text : String) (plain : Bool)
  | sequence (properties : Properties) (items : List Node)
  | mapping (properties : Properties) (entries : List (Node × Node))
  | alias (name : String)
  deriving Repr, Inhabited

/-- The node that stands where nothing is written. -/
def Node.empty : Node := .scalar ⟨none, none⟩ "" true

/-- The handles of tags and what they stand for. -/
abbrev Handles := List (String × String)

/-- The handles that every document has. -/
def defaultHandles : Handles := [("!", "!"), ("!!", "tag:yaml.org,2002:")]

/-- The tag that a handle and the rest of a tag stand for. -/
def expandTag (handles : Handles) (handle rest : String) : Option String :=
  if handle.isEmpty then some rest else (handles.lookup handle).map (· ++ rest)

/-- Reads an anchor and a tag in either order. -/
def readProperties (handles : Handles) : List Token → Option (Properties × List Token)
  | .anchor name :: .tag handle rest :: tokens
  | .tag handle rest :: .anchor name :: tokens =>
    (expandTag handles handle rest).map fun tag => (⟨some name, some tag⟩, tokens)
  | .anchor name :: tokens => some (⟨some name, none⟩, tokens)
  | .tag handle rest :: tokens =>
    (expandTag handles handle rest).map fun tag => (⟨none, some tag⟩, tokens)
  | tokens => some (⟨none, none⟩, tokens)

/-- A scalar node. The tag that is an exclamation mark alone has a scalar read like a plain one without
a tag. -/
def scalarNode (properties : Properties) (text : String) (plain : Bool) : Node :=
  if properties.tag = some "!" then .scalar { properties with tag := none } text plain
  else .scalar properties text plain

/-- Whether the next token is one of the given ones, none of which has parts. -/
def nextIs (tokens : List Token) (wanted : List Token) : Bool :=
  match tokens with
  | [] => false
  | token :: _ => wanted.contains token

/-- The list that a step adds an element to. -/
def prepend {α : Type} (first : α) : Option (List α × List Token) → Option (List α × List Token) :=
  Option.map fun (rest, tokens) => (first :: rest, tokens)

mutual

/-- Reads a node. Block collections are allowed where `block` says so, and a sequence whose items are
not indented where `indentless` does. -/
def readNode (handles : Handles) (block indentless : Bool) :
    Nat → List Token → Option (Node × List Token)
  | 0, _ => none
  | _ + 1, .alias name :: tokens => some (.alias name, tokens)
  | fuel + 1, tokens => do
    let (properties, tokens) ← readProperties handles tokens
    match tokens with
    | .scalar text plain :: rest => return (scalarNode properties text plain, rest)
    | .flowSequence :: rest =>
      (readFlowItems handles true fuel rest).map fun (items, rest) =>
        (.sequence properties items, rest)
    | .flowMapping :: rest =>
      (readFlowEntries handles true fuel rest).map fun (entries, rest) =>
        (.mapping properties entries, rest)
    | _ =>
      if indentless && nextIs tokens [.blockEntry] then
        (readIndentlessItems handles fuel tokens).map fun (items, rest) =>
          (.sequence properties items, rest)
      else if block && nextIs tokens [.blockSequence] then
        (readBlockItems handles fuel (tokens.drop 1)).map fun (items, rest) =>
          (.sequence properties items, rest)
      else if block && nextIs tokens [.blockMapping] then
        (readBlockEntries handles fuel (tokens.drop 1)).map fun (entries, rest) =>
          (.mapping properties entries, rest)
      else if properties.anchor.isSome || properties.tag.isSome then
        return (scalarNode properties "" true, tokens)
      else none

/-- Reads a node of a block unless one of the given tokens comes, which leave it empty. -/
def readBlockNode (handles : Handles) (indentless : Bool) (empty : List Token) :
    Nat → List Token → Option (Node × List Token)
  | 0, _ => none
  | fuel + 1, tokens =>
    if nextIs tokens empty then some (.empty, tokens)
    else readNode handles true indentless fuel tokens

/-- Reads the items of a block sequence and its end. -/
def readBlockItems (handles : Handles) : Nat → List Token → Option (List Node × List Token)
  | 0, _ => none
  | fuel + 1, .blockEntry :: tokens => do
    let (item, tokens) ← readBlockNode handles false [.blockEntry, .blockEnd] fuel tokens
    prepend item (readBlockItems handles fuel tokens)
  | _ + 1, .blockEnd :: tokens => some ([], tokens)
  | _ + 1, _ => none

/-- Reads the items of a sequence that is not indented; it has no end of its own. -/
def readIndentlessItems (handles : Handles) : Nat → List Token → Option (List Node × List Token)
  | 0, _ => none
  | fuel + 1, .blockEntry :: tokens => do
    let (item, tokens) ←
      readBlockNode handles false [.blockEntry, .key, .value, .blockEnd] fuel tokens
    prepend item (readIndentlessItems handles fuel tokens)
  | _ + 1, tokens => some ([], tokens)

/-- Reads the entries of a block mapping and its end. -/
def readBlockEntries (handles : Handles) :
    Nat → List Token → Option (List (Node × Node) × List Token)
  | 0, _ => none
  | fuel + 1, .key :: tokens => do
    let (key, tokens) ← readBlockNode handles true [.key, .value, .blockEnd] fuel tokens
    match tokens with
    | .value :: tokens =>
      let (value, tokens) ← readBlockNode handles true [.key, .value, .blockEnd] fuel tokens
      prepend (key, value) (readBlockEntries handles fuel tokens)
    | tokens => prepend (key, .empty) (readBlockEntries handles fuel tokens)
  | _ + 1, .blockEnd :: tokens => some ([], tokens)
  | _ + 1, _ => none

/-- Reads a node between brackets unless one of the given tokens comes, which leave it empty. -/
def readFlowNode (handles : Handles) (empty : List Token) :
    Nat → List Token → Option (Node × List Token)
  | 0, _ => none
  | fuel + 1, tokens =>
    if nextIs tokens empty then some (.empty, tokens)
    else readNode handles false false fuel tokens

/-- Reads the items of a sequence between brackets and its end. Before each item but the first a comma
comes, and one may come before the end. -/
def readFlowItems (handles : Handles) (first : Bool) :
    Nat → List Token → Option (List Node × List Token)
  | 0, _ => none
  | _ + 1, .flowSequenceEnd :: tokens => some ([], tokens)
  | fuel + 1, tokens => do
    let tokens ←
      if first then some tokens
      else match tokens with
        | .flowEntry :: tokens => some tokens
        | _ => none
    match tokens with
    | .flowSequenceEnd :: tokens => return ([], tokens)
    | .key :: tokens =>
      let (pair, tokens) ← readFlowPair handles fuel tokens
      prepend (.mapping ⟨none, none⟩ [pair]) (readFlowItems handles false fuel tokens)
    | tokens =>
      let (item, tokens) ← readNode handles false false fuel tokens
      prepend item (readFlowItems handles false fuel tokens)

/-- Reads a single pair that is an item of a sequence, after the token of its key. Where the key is
empty the token after it is passed over. -/
def readFlowPair (handles : Handles) : Nat → List Token → Option ((Node × Node) × List Token)
  | 0, _ => none
  | fuel + 1, tokens => do
    let (key, tokens) ←
      if nextIs tokens [.value, .flowEntry, .flowSequenceEnd] then some (.empty, tokens.drop 1)
      else readNode handles false false fuel tokens
    match tokens with
    | .value :: tokens =>
      let (value, tokens) ← readFlowNode handles [.flowEntry, .flowSequenceEnd] fuel tokens
      return ((key, value), tokens)
    | tokens => return ((key, .empty), tokens)

/-- Reads the entries of a mapping between brackets and its end. -/
def readFlowEntries (handles : Handles) (first : Bool) :
    Nat → List Token → Option (List (Node × Node) × List Token)
  | 0, _ => none
  | _ + 1, .flowMappingEnd :: tokens => some ([], tokens)
  | fuel + 1, tokens => do
    let tokens ←
      if first then some tokens
      else match tokens with
        | .flowEntry :: tokens => some tokens
        | _ => none
    match tokens with
    | .flowMappingEnd :: tokens => return ([], tokens)
    | .key :: tokens =>
      let (key, tokens) ← readFlowNode handles [.value, .flowEntry, .flowMappingEnd] fuel tokens
      match tokens with
      | .value :: tokens =>
        let (value, tokens) ← readFlowNode handles [.flowEntry, .flowMappingEnd] fuel tokens
        prepend (key, value) (readFlowEntries handles false fuel tokens)
      | tokens => prepend (key, .empty) (readFlowEntries handles false fuel tokens)
    | tokens =>
      let (key, tokens) ← readNode handles false false fuel tokens
      prepend (key, .empty) (readFlowEntries handles false fuel tokens)

end

/-! ### Documents -/

/-- Reads the directives before a document. There is at most one version, it is 1.1 or 1.2, and no
handle is given twice. -/
def readDirectives (hasVersion : Bool) (handles : Handles) :
    List Token → Option (Handles × List Token)
  | .version major minor :: tokens =>
    if hasVersion || major != 1 || !(minor == 1 || minor == 2) then none
    else readDirectives true handles tokens
  | .tagDirective handle start :: tokens =>
    if (handles.lookup handle).isSome then none
    else readDirectives hasVersion (handles ++ [(handle, start)]) tokens
  | tokens => some (handles, tokens)

/-- Whether only marks of the end of a document are left. -/
def onlyEnds (tokens : List Token) : Bool :=
  tokens.all (· == .documentEnd)

/-- The document that tokens hold: none, an empty one or one with a node. -/
def documentOf? (tokens : List Token) : Option Node := do
  let (handles, rest) ← readDirectives false [] tokens
  let fuel := 4 * tokens.length + 4
  match rest with
  | .documentStart :: rest =>
    let handles := handles ++ defaultHandles
    if onlyEnds rest then return .empty
    let (node, rest) ← readNode handles true false fuel rest
    if onlyEnds rest then return node else none
  | [] => if tokens.isEmpty then return .empty else none
  | rest =>
    if rest.length != tokens.length then none
    let (node, rest) ← readNode defaultHandles true false fuel rest
    if onlyEnds rest then return node else none

end ApiSurface.Yaml
