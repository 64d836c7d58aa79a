/-
This file proves that the hints which describe schemas are read as the types that the schemas name. A
list of lists is only called that, so however deep arrays are nested, there are few hints: names of
types, and lists of what has such a name. No plural of a name is itself a word for a type, so it is the
singular that counts.
-/

import ApiSurface.Hint.Reader
import ApiSurface.Hint.Writer

namespace ApiSurface.Hint

open Json (Members)

/-! ### The types that schemas name -/

/-- The field type for the name of a type that has no items. -/
def typeNamed (name : String) : FieldType :=
  match name with
  | "string" => .text
  | "integer" => .integer
  | "number" => .number
  | "boolean" => .boolean
  | "object" => .object
  | _ => .untyped

/-- The field type of an array whose items have a field type of their own. What lists are lists of is
not told where they are items, and neither is a hint that says nothing. -/
def listType (items : Json) (type : FieldType) : FieldType :=
  if ofSchema items = "any" then .list
  else if items.textAt? "type" = some "array" then .listOf .list
  else .listOf type

/-- The field type that a schema names. -/
def typeOf (schema : Json) : FieldType :=
  match schema with
  | .object members =>
    match (members.lookup "type").bind Json.asText? with
    | some name =>
      if name = "array" then
        match found : members.lookup "items" with
        | some items =>
          have : sizeOf items < 1 + sizeOf members := by
            have := Members.sizeOf_get? found
            omega
          listType items (typeOf items)
        | none => .list
      else typeNamed name
    | none => if Members.contains members "properties" then .object else .untyped
  | _ => .untyped
termination_by sizeOf schema

/-- The field type that the schema of a parameter names. -/
def parameterType (schema : Json) (isFile : Bool) : FieldType :=
  if isFile then (if schema.textAt? "type" = some "array" then .listOf .file else .file)
  else typeOf schema

/-! ### The hints that there are -/

/-- The hints of schemas that are not arrays. -/
def names : List (String × FieldType) :=
  [("string", .text), ("integer", .integer), ("number", .number), ("boolean", .boolean),
    ("object", .object), ("any", .untyped)]

/-- The hints of arrays. -/
def lists : List (String × FieldType) :=
  [("list", .list), ("list of strings", .listOf .text), ("list of integers", .listOf .integer),
    ("list of numbers", .listOf .number), ("list of booleans", .listOf .boolean),
    ("list of objects", .listOf .object), ("list of lists", .listOf .list)]

/-- The hints of files. -/
def files : List (String × FieldType) :=
  [("file", .file), ("list of files", .listOf .file)]

/-- Each hint is read as the type for which it stands. A plural of a name is none itself, so it is its
singular that is read. -/
theorem ofHint_of_mem : ∀ entry ∈ names ++ lists ++ files, FieldType.ofHint entry.1 = entry.2 := by
  decide +kernel

theorem eq_untyped_iff_of_mem :
    ∀ entry ∈ names ++ lists ++ files, entry.2 = .untyped ↔ entry.1 = "any" := by
  decide

/-! ### Arrays -/

theorem typeOf_of_items {members : Members} {items : Json}
    (type : (members.lookup "type").bind Json.asText? = some "array")
    (found : members.lookup "items" = some items) :
    typeOf (.object members) = listType items (typeOf items) := by
  rw [typeOf, type]
  dsimp only
  rw [if_pos rfl]
  split
  · next other same => rw [Option.some.inj (found.symm.trans same)]
  · next missing => cases found.symm.trans missing

theorem typeOf_of_noItems {members : Members}
    (type : (members.lookup "type").bind Json.asText? = some "array")
    (missing : members.lookup "items" = none) : typeOf (.object members) = .list := by
  rw [typeOf, type]
  dsimp only
  rw [if_pos rfl]
  split
  · next other same => cases missing.symm.trans same
  · rfl

/-- The hint of an array is that of a list, whatever its items are. -/
theorem ofItems_mem_lists {items : Json} {type : FieldType}
    (stands : (items.textAt? "type" ≠ some "array" ∧ (ofSchema items, type) ∈ names) ∨
      (items.textAt? "type" = some "array" ∧ (ofSchema items, type) ∈ lists)) :
    (ofItems (ofSchema items), listType items type) ∈ lists := by
  have ofNames : ∀ entry ∈ names,
      (ofItems entry.1, if entry.1 = "any" then .list else FieldType.listOf entry.2) ∈ lists := by
    decide +kernel
  have ofLists : ∀ entry ∈ lists, ofItems entry.1 = "list of lists" ∧ entry.1 ≠ "any" := by
    decide +kernel
  unfold listType
  rcases stands with ⟨noArray, member⟩ | ⟨array, member⟩
  · rw [if_neg noArray]
    exact ofNames _ member
  · obtain ⟨named, known⟩ := ofLists _ member
    rw [named, if_neg known, if_pos array]
    decide

theorem typeNamed_of_notMem {name : String} (unnamed : name ∉ namedTypes) :
    typeNamed name = .untyped := by
  unfold typeNamed
  split
  case h_6 => rfl
  all_goals exact absurd (by decide) unnamed

/-- The hint of a schema is that of a name, or of a list if the schema is that of an array. -/
theorem ofSchema_cases (schema : Json) :
    (schema.textAt? "type" ≠ some "array" ∧ (ofSchema schema, typeOf schema) ∈ names) ∨
      (schema.textAt? "type" = some "array" ∧ (ofSchema schema, typeOf schema) ∈ lists) := by
  have stands : ∀ name ∈ namedTypes, (name, typeNamed name) ∈ names := by decide
  fun_induction ofSchema schema with
  | case1 members type items found smaller inductionHypothesis =>
    rw [typeOf_of_items type found]
    exact .inr ⟨type, ofItems_mem_lists inductionHypothesis⟩
  | case2 members type missing =>
    rw [typeOf_of_noItems type missing]
    exact .inr ⟨type, List.mem_cons_self⟩
  | case3 members name noArray type named =>
    refine .inl ⟨fun same => noArray (Option.some.inj (type.symm.trans same)), ?_⟩
    rw [typeOf, type]
    dsimp only
    rw [if_neg noArray]
    exact stands name (List.contains_iff_mem.mp named)
  | case4 members name noArray type unnamed =>
    refine .inl ⟨fun same => noArray (Option.some.inj (type.symm.trans same)), ?_⟩
    rw [typeOf, type]
    dsimp only
    rw [if_neg noArray, typeNamed_of_notMem (mt List.contains_iff_mem.mpr unnamed)]
    decide
  | case5 members type properties =>
    refine .inl ⟨fun same => Option.some_ne_none _ (same.symm.trans type), ?_⟩
    rw [typeOf, type]
    dsimp only
    rw [if_pos properties]
    decide
  | case6 members type properties =>
    refine .inl ⟨fun same => Option.some_ne_none _ (same.symm.trans type), ?_⟩
    rw [typeOf, type]
    dsimp only
    rw [if_neg properties]
    decide
  | case7 scalar noObject =>
    cases scalar with
    | object members => exact absurd rfl (noObject members)
    | _ =>
      refine .inl ⟨nofun, ?_⟩
      rw [typeOf]
      · decide
      · exact noObject

/-- The hint of a parameter says nothing only if it is that of any value, and otherwise it is read as the
type that its schema names. -/
theorem ofHint_ofParameter (schema : Json) (isFile : Bool) :
    (FieldType.ofHint (ofParameter schema isFile) = .untyped ↔ ofParameter schema isFile = "any") ∧
      FieldType.ofHint (ofParameter schema isFile) = parameterType schema isFile := by
  have member : (ofParameter schema isFile, parameterType schema isFile) ∈ names ++ lists ++ files := by
    unfold ofParameter parameterType
    cases isFile with
    | true =>
      rw [if_pos rfl, if_pos rfl]
      split <;> decide
    | false =>
      rw [if_neg Bool.false_ne_true, if_neg Bool.false_ne_true]
      refine List.mem_append_left _ (List.mem_append.mpr ?_)
      exact (ofSchema_cases schema).imp And.right And.right
  have read := ofHint_of_mem _ member
  rw [read]
  exact ⟨eq_untyped_iff_of_mem _ member, rfl⟩

end ApiSurface.Hint
