/-
This file proves when an answer is read alike under a status and as the default one. The keyword for the
default of a schema is also the key of the default answer, so what stands there is copied as mere data:
types that are listed and compositions stay as they are written. Where the answer is found, what it
describes and what kind of value it holds is the same as long as none of this tells the kind.
-/

import ApiSurface.Proofs.OpenApi.Document
import ApiSurface.Proofs.OpenApi.Mirror
import ApiSurface.Proofs.Operation.Extraction

namespace ApiSurface

open Json (Members)
open OpenApi (IsMirrored IsUncomposed Position expandNode maxDepth mergedKeywords survey under? visit)

namespace Operation

/-! ### Answers -/

/-- What an answer says about its first media type of JSON. -/
def responseMedia? (answer : Json) : Option Json :=
  ((answer.get? "content").bind Json.asObject?).bind fun content =>
    (content.find? fun member => Body.isJson member.1).map Prod.snd

theorem responseSchema?_eq (answer : Json) :
    responseSchema? answer = (responseMedia? answer).bind fun media => media.get? "schema" := by
  unfold responseSchema? responseMedia?
  cases answer.get? "content" with
  | none => rfl
  | some written =>
    cases written with
    | object content =>
      show (content.find? fun member => Body.isJson member.1).bind _ =
        ((content.find? fun member => Body.isJson member.1).map Prod.snd).bind _
      cases content.find? fun member => Body.isJson member.1 <;> rfl
    | _ => rfl

/-- A schema names its type as a text, or it names no list of types and is not composed. -/
def TellsType (schema : Json) : Prop :=
  (schema.textAt? "type").isSome = true ∨
    ((schema.get? "type").bind Json.asArray? = none ∧ IsUncomposed schema)

instance (schema : Json) : Decidable (TellsType schema) :=
  inferInstanceAs (Decidable (_ ∨ _ ∧ _))

/-- Neither an answer nor what leads to its schema is composed, and the schema tells its type. -/
structure IsPlain (answer : Json) : Prop where
  whole : IsUncomposed answer
  content : ∀ content ∈ answer.get? "content", IsUncomposed content
  media : ∀ media ∈ responseMedia? answer, IsUncomposed media
  schema : ∀ schema ∈ responseSchema? answer, TellsType schema

instance (answer : Json) : Decidable (IsPlain answer) :=
  decidable_of_iff
    (IsUncomposed answer ∧ (∀ content ∈ answer.get? "content", IsUncomposed content) ∧
      (∀ media ∈ responseMedia? answer, IsUncomposed media) ∧
      ∀ schema ∈ responseSchema? answer, TellsType schema)
    ⟨fun ⟨whole, content, media, schema⟩ => ⟨whole, content, media, schema⟩,
      fun ⟨whole, content, media, schema⟩ => ⟨whole, content, media, schema⟩⟩

/-- The kind and the description of an answer. -/
def returnsOfAnswer (answer : Json) : ReturnKind × String :=
  ((responseSchema? answer).elim .unknown returnKindOf,
    String.ofList (Text.trim ((answer.textAt? "description").getD "").toList))

theorem returnsOf_of_response? {raw : Members} {answer : Json} (found : response? raw = some answer) :
    returnsOf raw = returnsOfAnswer answer := by
  rw [returnsOf, found]
  rfl

theorem textAt?_eq_some_iff {value : Json} {key text : String} :
    value.textAt? key = some text ↔ value.get? key = some (.text text) := by
  rw [Json.textAt?, Option.bind_eq_some_iff]
  constructor
  · rintro ⟨held, found, same⟩
    rw [found, OpenApi.eq_text_of_asText? same]
  · intro found
    exact ⟨.text text, found, rfl⟩

section

variable {root copy literal : Json} (rootDistinct : root.HasDistinctKeys)
  (mirrored : IsMirrored root copy literal)
include rootDistinct mirrored

/-- A type that is a text stays. -/
theorem textAt?_type_of_isMirrored {name : String} (told : literal.textAt? "type" = some name) :
    copy.textAt? "type" = some name := by
  rcases mirrored.cases rootDistinct with ⟨copies, literals, rfl, rfl, mirrors⟩ | ⟨-, noObject⟩
  · exact textAt?_eq_some_iff.mpr (mirrors.type name (textAt?_eq_some_iff.mp told))
  · rw [Json.textAt?, OpenApi.get?_eq_none_of_asObject? noObject] at told
    cases told

/-- Where there is no composition, a type that is a text was one or was listed. -/
theorem textAt?_type_cases_of_isMirrored (uncomposed : IsUncomposed literal) {name : String}
    (told : copy.textAt? "type" = some name) :
    literal.textAt? "type" = some name ∨ ∃ types, literal.get? "type" = some (.array types) := by
  rcases mirrored.cases rootDistinct with ⟨copies, literals, rfl, rfl, mirrors⟩ | ⟨noObject, -⟩
  · exact (mirrors.typePlain uncomposed name (textAt?_eq_some_iff.mp told)).imp
      textAt?_eq_some_iff.mpr id
  · rw [Json.textAt?, OpenApi.get?_eq_none_of_asObject? noObject] at told
    cases told

/-- A schema that tells its type has the kind that it has as mere data. -/
theorem returnKindOf_of_isMirrored (tells : TellsType literal) :
    returnKindOf copy = returnKindOf literal := by
  cases told : literal.textAt? "type" with
  | some name =>
    rw [returnKindOf, returnKindOf, told, textAt?_type_of_isMirrored rootDistinct mirrored told]
    split <;> first | rfl | contradiction
  | none =>
    rcases tells with named | ⟨noList, uncomposed⟩
    · rw [told] at named
      cases named
    have untold : copy.textAt? "type" = none := by
      by_contra typed
      obtain ⟨name, named⟩ := Option.ne_none_iff_exists'.mp typed
      rcases textAt?_type_cases_of_isMirrored rootDistinct mirrored uncomposed named with
        before | ⟨types, listed⟩
      · rw [told] at before
        cases before
      · rw [listed] at noList
        cases noList
    have isSome {key : String} (notType : key ≠ "type") (notNullable : key ≠ "nullable") :
        (copy.get? key).isSome = (literal.get? key).isSome := by
      have related := mirrored.rel_get? rootDistinct uncomposed notType notNullable
      generalize copy.get? key = first, literal.get? key = second at related ⊢
      cases related <;> rfl
    rw [returnKindOf, returnKindOf, told, untold, isSome (by decide) (by decide),
      isSome (by decide) (by decide)]

theorem rel_responseMedia? (plain : IsPlain literal) :
    Option.Rel (IsMirrored root) (responseMedia? copy) (responseMedia? literal) := by
  have content : Option.Rel (IsMirrored root) (copy.get? "content") (literal.get? "content") :=
    mirrored.rel_get? rootDistinct plain.whole (by decide) (by decide)
  have uncomposed := plain.content
  unfold responseMedia?
  generalize copy.get? "content" = first, literal.get? "content" = second at content uncomposed ⊢
  cases content with
  | none => exact .none
  | some inner =>
    rcases inner.cases rootDistinct with ⟨copies, literals, rfl, rfl, mirrors⟩ | ⟨noCopy, noLiteral⟩
    · have media := mirrors.rel_find? (uncomposed _ rfl) Body.isJson (by decide +kernel)
        (by decide +kernel)
      simp only [Option.bind_some, Json.asObject?]
      generalize copies.find? (fun member => Body.isJson member.1) = first,
        literals.find? (fun member => Body.isJson member.1) = second at media ⊢
      cases media with
      | none => exact .none
      | some both => exact .some both.2
    · rw [Option.bind_some, Option.bind_some, noCopy, noLiteral]
      exact .none

theorem rel_responseSchema? (plain : IsPlain literal) :
    Option.Rel (IsMirrored root) (responseSchema? copy) (responseSchema? literal) := by
  have media := rel_responseMedia? rootDistinct mirrored plain
  have uncomposed := plain.media
  rw [responseSchema?_eq, responseSchema?_eq]
  generalize responseMedia? copy = first, responseMedia? literal = second at media uncomposed ⊢
  cases media with
  | none => exact .none
  | some inner => exact inner.rel_get? rootDistinct (uncomposed _ rfl) (by decide) (by decide)

/-- An answer that is plain as mere data is read as it is as a schema. -/
theorem returnsOfAnswer_of_isMirrored (plain : IsPlain literal) :
    returnsOfAnswer copy = returnsOfAnswer literal := by
  have schema := rel_responseSchema? rootDistinct mirrored plain
  have tells := plain.schema
  unfold returnsOfAnswer
  rw [mirrored.textAt?_eq rootDistinct plain.whole (by decide) (by decide)]
  generalize responseSchema? copy = first, responseSchema? literal = second at schema tells ⊢
  cases schema with
  | some inner =>
    rw [Option.elim_some, Option.elim_some,
      returnKindOf_of_isMirrored rootDistinct inner (tells _ rfl)]
  | none => rfl

end

/-! ### Places -/

/-- An operation that a document declares under a key of its path. -/
structure IsAt (document : OpenApi.Document) (key : String) (operation : Operation) : Prop where
  listed : operation ∈ ofDocument document
  verb : Verb.ofWord? key = some operation.verb
  stands : under? document.root ["paths", operation.path, key] = some (.object operation.raw)

/-- Every operation stands under a key of its path. -/
theorem exists_isAt {document : OpenApi.Document} (distinct : document.root.HasDistinctKeys)
    {operation : Operation} (listed : operation ∈ ofDocument document) :
    ∃ key, IsAt document key operation := by
  obtain ⟨⟨path, item⟩, inside, made⟩ := List.mem_flatMap.mp listed
  obtain ⟨⟨name, value⟩, there, object⟩ := List.mem_filterMap.mp inside
  obtain ⟨members, whole, same⟩ := Option.map_eq_some_iff.mp object
  obtain ⟨rfl, rfl⟩ := Prod.mk.inj same
  obtain ⟨⟨key, raw⟩, member, named⟩ := List.mem_filterMap.mp made
  dsimp only at named whole
  split at named
  · next verb raw word =>
    obtain rfl := Option.some.inj named
    refine ⟨key, listed, word, ?_⟩
    cases value with
    | object others =>
      obtain rfl := Option.some.inj whole
      cases found : document.root.get? "paths" with
      | none =>
        rw [found] at there
        cases there
      | some paths =>
        rw [found] at there
        cases paths with
        | object items =>
          have pathsDistinct := distinct.of_get? found
          have itemFound := (Members.get?_eq_some_iff pathsDistinct.nodup_keys).mpr there
          have rawFound := (Members.get?_eq_some_iff (pathsDistinct.of_mem there).nodup_keys).mpr member
          rw [under?, found, Option.bind_some, under?, Json.get?, itemFound, Option.bind_some, under?,
            Json.get?, rawFound, Option.bind_some, under?]
        | _ => cases there
    | _ => cases whole
  · cases named

theorem notMem_mergedKeywords_of_ofWord? {key : String} {verb : Verb}
    (named : Verb.ofWord? key = some verb) : key ∉ mergedKeywords ∧ key ≠ "$ref" := by
  have unnamed : ∀ keyword ∈ "$ref" :: mergedKeywords, Verb.ofWord? keyword = none := by
    decide +kernel
  refine not_or.mp fun known => ?_
  rw [unnamed key (List.mem_cons.mpr known.symm)] at named
  cases named

/-! ### Only answers -/

/-- The position of the answers of an operation under a key of a path. -/
def answersPosition (path key : String) : Position :=
  ["paths", path, key, "responses"].foldl Position.ofChild .schema

theorem answersPosition_ofChild_default (path key : String) :
    (answersPosition path key).ofChild "default" = .literal := by
  show ((Position.ofChild _ key).ofChild "responses").ofChild "default" = .literal
  cases Position.ofChild _ key <;> decide

/-- What stands for the only answer of an operation is its copy, with four levels less than the copy of
the document. -/
theorem get?_responses_of_under? {root answer : Json} {document : OpenApi.Document}
    (read : OpenApi.Document.ofJson root = .ok document) (distinct : root.HasDistinctKeys)
    {operation : Operation} {key : String} (place : IsAt document key operation)
    (path : operation.path ∉ mergedKeywords ∧ operation.path ≠ "$ref") {status : String}
    (notMerged : status ∉ mergedKeywords) (noReference : status ≠ "$ref")
    (held : under? root ["paths", operation.path, key, "responses"] =
      some (.object [(status, answer)])) :
    operation.raw.get? "responses" = some (.object [(status, expandNode root []
      ((answersPosition operation.path key).ofChild status) (maxDepth - 4) answer)]) := by
  have copied : document.root = expandNode root [] .schema (maxDepth - 2 + 3) root :=
    (OpenApi.Document.root_eq_of_ofJson read).trans (OpenApi.agrees_resolve root).value
  have inner : under? root (["paths", operation.path, key] ++ ["responses"]) =
      some (.object [(status, answer)]) := held
  rw [OpenApi.under?_append] at inner
  obtain ⟨written, reached, within⟩ := Option.bind_eq_some_iff.mp inner
  rw [OpenApi.under?_single] at within
  have named := notMem_mergedKeywords_of_ofWord? place.verb
  have raw : .object operation.raw = expandNode root []
      (["paths", operation.path, key].foldl Position.ofChild .schema) (maxDepth - 3 + 1) written := by
    refine OpenApi.eq_of_under?_expandNode ?_ ?_ distinct reached (copied ▸ place.stands)
    · exact List.forall_mem_cons.mpr ⟨by decide, List.forall_mem_cons.mpr
        ⟨path.1, List.forall_mem_singleton.mpr named.1⟩⟩
    · simp [path.2.symm, named.2.symm]
  cases written with
  | object members =>
    have written := OpenApi.hasDistinctKeys_of_under? distinct reached
    have responses := OpenApi.get?_expandNode written.nodup_keys within (by decide) (by decide)
      (congrArg OpenApi.isObject raw.symm)
    rw [← raw] at responses
    exact responses.trans
      (congrArg some (OpenApi.expandNode_single _ (maxDepth - 4) answer notMerged noReference))
  | _ => cases within

theorem response?_of_status {raw : Members} {answer : Json}
    (answered : raw.get? "responses" = some (.object [("200", answer)])) :
    response? raw = some answer := by
  have success : "200".startsWith "2" = true := by decide +kernel
  simp [response?, answered, Json.asObject?, success]

theorem response?_of_default {raw : Members} {answer : Json}
    (answered : raw.get? "responses" = some (.object [("default", answer)])) :
    response? raw = some answer := by
  have noStatus : "default".startsWith "2" = false := by decide +kernel
  simp [response?, answered, Json.asObject?, noStatus]

/-! ### Moving -/

/-- Two documents that hold the only answer of an operation, one under a status and the other as the
default one, and in which the references that are met in it lead to the same. -/
structure IsMoved (first second : Json) (path key : String) (answer : Json) : Prop where
  distinct : first.HasDistinctKeys
  distinctMoved : second.HasDistinctKeys
  notMerged : path ∉ mergedKeywords
  noReference : path ≠ "$ref"
  answered : under? first ["paths", path, key, "responses"] = some (.object [("200", answer)])
  moved : under? second ["paths", path, key, "responses"] = some (.object [("default", answer)])
  alike : ∀ reference ∈ (survey first [] (maxDepth - 4) answer).met,
    visit first [] reference = visit second [] reference

/-- If the default answer of an operation is plain, the operation returns the same with its answer under a
status. -/
theorem returnsOf_of_isMoved {first second answer : Json} {described moved : OpenApi.Document}
    (read : OpenApi.Document.ofJson first = .ok described)
    (readMoved : OpenApi.Document.ofJson second = .ok moved) {one other : Operation} {key : String}
    (place : IsAt described key one) (placeMoved : IsAt moved key other)
    (samePath : other.path = one.path) (moves : IsMoved first second one.path key answer)
    (plain : ∀ found ∈ response? other.raw, IsPlain found) :
    returnsOf one.raw = returnsOf other.raw ∧
      ∀ extracted extractedMoved,
        one.extract = .ok extracted → other.extract = .ok extractedMoved →
        extracted.returnKind = extractedMoved.returnKind ∧
          extracted.returnsDescription = extractedMoved.returnsDescription := by
  have same : returnsOf one.raw = returnsOf other.raw := by
    have copy := response?_of_status (get?_responses_of_under? read moves.distinct place
      ⟨moves.notMerged, moves.noReference⟩ (by decide) (by decide) moves.answered)
    have literal := response?_of_default (get?_responses_of_under? readMoved moves.distinctMoved
      placeMoved (samePath ▸ ⟨moves.notMerged, moves.noReference⟩) (by decide) (by decide)
      (samePath ▸ moves.moved))
    have distinct : answer.HasDistinctKeys :=
      (OpenApi.hasDistinctKeys_of_under? moves.distinctMoved moves.moved).of_mem List.mem_cons_self
    rw [answersPosition_ofChild_default] at literal
    rw [OpenApi.expandNode_congr moves.alike] at copy
    rw [returnsOf_of_response? copy, returnsOf_of_response? literal]
    exact returnsOfAnswer_of_isMirrored moves.distinctMoved ⟨[], _, _, answer, distinct, rfl, rfl⟩
      (plain _ literal)
  refine ⟨same, fun extracted extractedMoved done doneMoved => Prod.mk.inj ?_⟩
  rw [returns_of_extract done, returns_of_extract doneMoved, same]

/-- An answer in JSON whose schema is shared. -/
def usersAnswer : Json :=
  .object [("description", .text "All users."), ("content", .object [("application/json",
    .object [("schema", .object [("$ref", .text "#/components/schemas/Users")])])])]

/-- A description of one operation, which only has that answer. -/
def usersDescription (status : String) (schema : Json) : Json :=
  .object [("info", .object [("title", .text "Users")]),
    ("paths", .object [("/users", .object [("get", .object [("operationId", .text "listUsers"),
      ("responses", .object [(status, usersAnswer)])])])]),
    ("components", .object [("schemas", .object [("Users", schema)])])]

/-- A schema of a list whose items may be null. -/
def usersSchema : Json :=
  .object [("type", .text "array"),
    ("items", .object [("type", .array [.text "string", .text "null"])])]

theorem returnsOf_of_isMoved_usersDescription : ∃ described moved one other,
    OpenApi.Document.ofJson (usersDescription "200" usersSchema) = .ok described ∧
    OpenApi.Document.ofJson (usersDescription "default" usersSchema) = .ok moved ∧
    IsAt described "get" one ∧ IsAt moved "get" other ∧ other.path = one.path ∧
    IsMoved (usersDescription "200" usersSchema) (usersDescription "default" usersSchema)
      one.path "get" usersAnswer ∧
    (∀ found ∈ response? other.raw, IsPlain found) ∧
    returnsOf one.raw = (.list, "All users.") ∧
    returnsOf one.raw = returnsOf other.raw ∧
    ∀ extracted extractedMoved, one.extract = .ok extracted → other.extract = .ok extractedMoved →
      extracted.returnKind = extractedMoved.returnKind ∧
        extracted.returnsDescription = extractedMoved.returnsDescription := by
  obtain ⟨described, moved, one, other, read, readMoved, listed, listedMoved, path, pathMoved, verb,
      verbMoved, stands, standsMoved, plain, returns⟩ : ∃ described moved one other,
      OpenApi.Document.ofJson (usersDescription "200" usersSchema) = .ok described ∧
      OpenApi.Document.ofJson (usersDescription "default" usersSchema) = .ok moved ∧
      ofDocument described = [one] ∧ ofDocument moved = [other] ∧
      one.path = "/users" ∧ other.path = "/users" ∧ one.verb = .get ∧ other.verb = .get ∧
      under? described.root ["paths", "/users", "get"] = some (.object one.raw) ∧
      under? moved.root ["paths", "/users", "get"] = some (.object other.raw) ∧
      (∀ found ∈ response? other.raw, IsPlain found) ∧
      returnsOf one.raw = (.list, "All users.") :=
    ⟨_, _, _, _, rfl, rfl, rfl, rfl, rfl, rfl, rfl, rfl, rfl, rfl, by decide +kernel,
      by decide +kernel⟩
  have word : Verb.ofWord? "get" = some .get := by decide +kernel
  have place : IsAt described "get" one :=
    ⟨listed ▸ List.mem_cons_self, verb ▸ word, path ▸ stands⟩
  have placeMoved : IsAt moved "get" other :=
    ⟨listedMoved ▸ List.mem_cons_self, verbMoved ▸ word, pathMoved ▸ standsMoved⟩
  have distinct {status : String} : (usersDescription status usersSchema).HasDistinctKeys := by
    simp [usersDescription, usersAnswer, usersSchema, Json.hasDistinctKeys_object_iff,
      Json.hasDistinctKeys_array_iff, Members.keys]
  have moves : IsMoved (usersDescription "200" usersSchema) (usersDescription "default" usersSchema)
      one.path "get" usersAnswer := by
    rw [path]
    refine ⟨distinct, distinct, by decide, by decide, rfl, rfl, fun reference met => ?_⟩
    have only : (survey (usersDescription "200" usersSchema) [] (maxDepth - 4) usersAnswer).met =
        ["#/components/schemas/Users"] := by decide +kernel
    rw [only] at met
    obtain rfl := List.mem_singleton.mp met
    rfl
  have samePath := pathMoved.trans path.symm
  exact ⟨described, moved, one, other, read, readMoved, place, placeMoved, samePath, moves, plain,
    returns, returnsOf_of_isMoved read readMoved place placeMoved samePath moves plain⟩

/-- A list that may be null is known as one under a status only. -/
theorem exists_returnKind_moved_ne : ∃ schema described moved one other,
    OpenApi.Document.ofJson (usersDescription "200" schema) = .ok described ∧
    OpenApi.Document.ofJson (usersDescription "default" schema) = .ok moved ∧
    ofDocument described = [one] ∧ ofDocument moved = [other] ∧
    one.extract.toOption.map (fun extracted =>
      (extracted.returnKind, extracted.returnsDescription)) = some (.list, "All users.") ∧
    other.extract.toOption.map (fun extracted =>
      (extracted.returnKind, extracted.returnsDescription)) = some (.unknown, "All users.") :=
  ⟨.object [("type", .array [.text "array", .text "null"])], _, _, _, _, rfl, rfl, rfl, rfl,
    by decide +kernel, by decide +kernel⟩

end Operation

end ApiSurface
