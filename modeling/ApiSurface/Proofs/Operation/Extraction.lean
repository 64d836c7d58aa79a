/-
This file proves what sorting out an operation gives and why it can fail. The operation takes what its
path declares and what it declares itself, which counts where both declare the same. Whatever is wrong
with an operation concerns this operation alone: a reference that leads nowhere, or a parameter without a
name. What comes out keeps the verb and the path, and every parameter in the path must be given.
-/

import ApiSurface.Operation.Extraction
import ApiSurface.Proofs.Fault
import ApiSurface.Proofs.Keyed

namespace ApiSurface.Operation

/-! ### Declarations -/

/-- A list that merges the declarations of a path, which its operations share, and those of one of the
operations. -/
structure IsMerged (shared own merged : List Json) : Prop where
  /-- No two declarations have the same name and place. -/
  distinct : (merged.map parameterKey).Nodup
  /-- A name and place is declared exactly if the path or the operation declares it. -/
  declared : ∀ key, key ∈ merged.map parameterKey ↔
    key ∈ shared.map parameterKey ∨ key ∈ own.map parameterKey
  /-- What the operation declares is as its last declaration says. -/
  overridden : ∀ before declaration after, own = before ++ declaration :: after →
    parameterKey declaration ∉ after.map parameterKey → declaration ∈ merged
  /-- What the operation does not declare is as the path says. -/
  inherited : ∀ declaration ∈ shared, parameterKey declaration ∉ own.map parameterKey →
    declaration ∈ merged
  /-- What the path declares comes first, in its order, and behind it what only the operation declares,
  in the order in which it first does. -/
  order : merged.map parameterKey = shared.map parameterKey ++
    ((own.map parameterKey).filter fun key => key ∉ shared.map parameterKey).eraseDups

/-- If a path declares nothing twice, its operations take what merges its declarations and their own. -/
theorem isMerged_parameters (operation : Operation)
    (distinct : (operation.pathParameters.map parameterKey).Nodup) :
    IsMerged operation.pathParameters (itemsAt operation.raw "parameters") operation.parameters where
  distinct := Keyed.nodup_map_putAll distinct _
  declared key := by
    rw [parameters, Keyed.map_putAll distinct, List.mem_eraseDups, List.mem_append]
  overridden before declaration after whole last := by
    rw [parameters, whole]
    exact Keyed.mem_putAll_of_last last
  inherited _ inside other := Keyed.mem_putAll_of_notMem inside other
  order := Keyed.map_putAll_of_nodup distinct _

/-- A declaration of a name and a place with a description. -/
def described (name place description : String) : Json :=
  .object [("name", .text name), ("in", .text place), ("description", .text description)]

/-- An operation that declares a parameter of its path twice, one of its own twice, and some without a
name, a place or both. -/
def overridingOperation : Operation where
  path := "/items/\x7bid\x7d"
  verb := .get
  raw := [("parameters", .array [described "limit" "query" "first", described "id" "path" "own",
    .null, described "limit" "query" "second", described "id" "query" "other",
    .object [("in", .text "header")], described "id" "path" "last"])]
  pathParameters := [described "id" "path" "shared", .object [("in", .text "header"), ("x", .null)],
    described "trace" "header" "shared"]

theorem isMerged_parameters_overridingOperation :
    (overridingOperation.pathParameters.map parameterKey).Nodup ∧
    overridingOperation.parameters =
      [described "id" "path" "last", .object [("in", .text "header")],
        described "trace" "header" "shared", described "limit" "query" "second", .null,
        described "id" "query" "other"] ∧
    IsMerged overridingOperation.pathParameters (itemsAt overridingOperation.raw "parameters")
      overridingOperation.parameters := by
  have distinct : (overridingOperation.pathParameters.map parameterKey).Nodup := by decide
  exact ⟨distinct, rfl, isMerged_parameters overridingOperation distinct⟩

/-- Declarations are merged in one way only. -/
theorem IsMerged.unique {shared own first second : List Json} (isFirst : IsMerged shared own first)
    (isSecond : IsMerged shared own second) : first = second := by
  refine Keyed.eq_of_map_eq (isFirst.order.trans isSecond.order.symm) ?_
  intro left inFirst right inSecond same
  obtain ⟨declaration, here, there, key⟩ : ∃ declaration, declaration ∈ first ∧
      declaration ∈ second ∧ parameterKey declaration = parameterKey left := by
    by_cases own : parameterKey left ∈ own.map parameterKey
    · obtain ⟨before, declaration, after, whole, key, last⟩ := Keyed.exists_last_of_mem own
      rw [← key] at last
      exact ⟨declaration, isFirst.overridden _ _ _ whole last, isSecond.overridden _ _ _ whole last, key⟩
    · have either := (isFirst.declared _).mp (List.mem_map_of_mem inFirst)
      obtain ⟨declaration, inside, key⟩ := List.mem_map.mp (either.resolve_right own)
      rw [← key] at own
      exact ⟨declaration, isFirst.inherited _ inside own, isSecond.inherited _ inside own, key⟩
  rw [List.inj_on_of_nodup_map isFirst.distinct inFirst here key.symm,
    List.inj_on_of_nodup_map isSecond.distinct inSecond there (key.trans same).symm]

/-! ### Sorting -/

variable {operation : Operation} {fault : Fault}

/-- Declarations are sorted unless one of them has no name. -/
theorem sortParameters_eq_error {label : String} {declarations : List Json}
    (failed : sortParameters label declarations = .error fault) :
    fault = .invalidSchema label "parameter without a name" := by
  induction declarations with
  | nil => cases failed
  | cons declaration rest inductionHypothesis =>
    unfold sortParameters at failed
    split at failed
    · exact (Except.error.inj failed).symm
    · rcases bind_eq_error.mp failed with earlier | ⟨⟨inPath, inQuery⟩, -, failed⟩
      · exact inductionHypothesis earlier
      · dsimp only at failed
        split at failed <;> cases failed

/-- A parameter in the path must be given. -/
theorem required_of_sortParameters {label : String} {declarations : List Json}
    {inPath inQuery : List Parameter}
    (done : sortParameters label declarations = .ok (inPath, inQuery)) :
    ∀ parameter ∈ inPath, parameter.required = true := by
  induction declarations generalizing inPath inQuery with
  | nil =>
    obtain ⟨rfl, rfl⟩ := Prod.mk.inj (Except.ok.inj done)
    exact fun parameter member => absurd member List.not_mem_nil
  | cons declaration rest inductionHypothesis =>
    unfold sortParameters at done
    split at done
    · cases done
    · obtain ⟨⟨pathRest, queryRest⟩, sorted, done⟩ := bind_eq_ok.mp done
      have further := inductionHypothesis sorted
      dsimp only at done
      split at done <;> obtain ⟨rfl, rfl⟩ := Prod.mk.inj (Except.ok.inj done)
      · intro parameter member
        rcases List.mem_cons.mp member with rfl | later
        · rfl
        · exact further parameter later
      · exact further
      · exact further

/-- An operation cannot be sorted out only if a reference leads nowhere or a parameter has no name. -/
theorem extract_eq_error (failed : operation.extract = .error fault) :
    (∃ reference, operation.unresolved? = some reference ∧
        fault = .unresolvedReference operation.label reference) ∨
      fault = .invalidSchema operation.label "parameter without a name" := by
  unfold extract at failed
  split at failed
  · next reference found => exact .inl ⟨reference, found, (Except.error.inj failed).symm⟩
  · rcases bind_eq_error.mp failed with sorting | ⟨⟨inPath, inQuery⟩, -, failed⟩
    · exact .inr (sortParameters_eq_error sorting)
    · cases failed

/-- An operation cannot be sorted out only for a reason of its own. -/
theorem isOperationScoped_of_extract (failed : operation.extract = .error fault) :
    fault.isOperationScoped = true := by
  rcases extract_eq_error failed with ⟨reference, -, rfl⟩ | rfl <;> rfl

/-- What comes out keeps the verb and the path, its body is that of the operation, and its parameters
in the path must be given. -/
theorem extract_eq_ok {extracted : ExtractedOperation} (done : operation.extract = .ok extracted) :
    extracted.verb = operation.verb ∧ extracted.path = operation.path ∧
      extracted.body = Body.ofOperation operation.raw ∧
      ∀ parameter ∈ extracted.pathParameters, parameter.required = true := by
  unfold extract at done
  split at done
  · cases done
  · obtain ⟨⟨inPath, inQuery⟩, sorted, done⟩ := bind_eq_ok.mp done
    obtain rfl := Except.ok.inj done
    exact ⟨rfl, rfl, rfl, required_of_sortParameters sorted⟩

/-- What comes out returns what the answer of the operation says. -/
theorem returns_of_extract {extracted : ExtractedOperation} (done : operation.extract = .ok extracted) :
    (extracted.returnKind, extracted.returnsDescription) = returnsOf operation.raw := by
  unfold extract at done
  split at done
  · cases done
  · obtain ⟨⟨inPath, inQuery⟩, -, done⟩ := bind_eq_ok.mp done
    obtain rfl := Except.ok.inj done
    rfl

end ApiSurface.Operation
