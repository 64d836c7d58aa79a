/-
This file proves what an argument model is made of. There is one field for each parameter that a caller
gives, in their order and under pairwise different names, and arguments are checked against the schema of
the fields, whichever library makes the check.
-/

import ApiSurface.Proofs.Fault
import ApiSurface.Tool.Model
import Mathlib.Data.List.Nodup

namespace ApiSurface.ArgumentModel

open Json (Members)

/-- The field that a parameter becomes. -/
def fieldOf (doc : DocBlock) (parameter : ToolParameter) : Field :=
  (Field.ofParameter parameter doc).1

/-- The definitions of parameters, put one after the other over those that are there already. -/
def definitionsOf (doc : DocBlock) (parameters : List ToolParameter) (found : Members) : Members :=
  parameters.foldl (fun found parameter => found.insertAll (Field.ofParameter parameter doc).2) found

theorem collectFields_eq_ok {doc : DocBlock} {parameters : List ToolParameter}
    {found collected : List Field × Members}
    (done : collectFields doc parameters found = .ok collected) :
    collected = (found.1 ++ parameters.map (fieldOf doc), definitionsOf doc parameters found.2) ∧
      ((found.1.map Field.name).Nodup → (collected.1.map Field.name).Nodup) := by
  fun_induction collectFields doc parameters found with
  | case1 found =>
    obtain rfl := Except.ok.inj done
    rw [List.map_nil, List.append_nil]
    exact ⟨rfl, id⟩
  | case2 => cases done
  | case3 => cases done
  | case4 parameter rest fields definitions notReserved new field added made inductionHypothesis =>
    obtain ⟨rfl, distinct⟩ := inductionHypothesis done
    obtain ⟨rfl, rfl⟩ : field = fieldOf doc parameter ∧
        added = (Field.ofParameter parameter doc).2 := by
      rw [fieldOf, made]
      exact ⟨rfl, rfl⟩
    refine ⟨?_, fun before => distinct ?_⟩
    · rw [List.map_cons, ← List.append_cons]
      rfl
    · rw [List.map_append, List.map_singleton]
      refine List.nodup_append.mpr ⟨before, List.nodup_singleton _, fun name inside other same => ?_⟩
      rintro rfl
      rw [List.mem_singleton.mp same] at inside
      obtain ⟨taken, member, equal⟩ := List.mem_map.mp inside
      exact new (List.any_eq_true.mpr ⟨taken, member, beq_iff_eq.mpr equal⟩)

/-- What a model is made of. -/
structure IsMadeOf [SchemaLibrary] (tool : Tool) (doc : DocBlock) (model : ArgumentModel) : Prop where
  /-- It has the name of the tool. -/
  name : model.tool = tool.name
  /-- It has a field for each parameter that a caller gives. -/
  fields : model.fields = tool.freeParameters.map (fieldOf doc)
  /-- The names of the fields are pairwise different. -/
  distinct : (model.fields.map Field.name).Nodup
  /-- It has the definitions of all of them. -/
  definitions : model.definitions = definitionsOf doc tool.freeParameters []
  /-- The arguments are checked against the schema of the fields. -/
  validator : SchemaLibrary.checkFor?
    (objectSchema Field.validation model.fields model.definitions) = some model.validator

theorem isMadeOf_of_ofTool [SchemaLibrary] {tool : Tool} {doc : DocBlock} {model : ArgumentModel}
    (made : ofTool tool doc = .ok model) : IsMadeOf tool doc model := by
  have built : build tool doc = .ok model := by
    unfold ofTool at made
    cases result : build tool doc with
    | error reason =>
      rw [result] at made
      cases made
    | ok built =>
      rw [result] at made
      exact congrArg Except.ok (Except.ok.inj made)
  unfold build at built
  split at built
  · cases built
  obtain ⟨⟨fields, definitions⟩, collected, built⟩ := bind_eq_ok.mp built
  obtain ⟨whole, distinct⟩ := collectFields_eq_ok collected
  obtain ⟨rfl, rfl⟩ := Prod.mk.inj whole
  dsimp only at built
  split at built
  · next validator compiled =>
    obtain rfl := Except.ok.inj built
    exact ⟨rfl, rfl, distinct List.nodup_nil, rfl, compiled⟩
  · cases built

theorem IsMadeOf.names [SchemaLibrary] {tool : Tool} {doc : DocBlock} {model : ArgumentModel}
    (isMadeOf : IsMadeOf tool doc model) :
    model.fields.map Field.name = tool.freeParameters.map ToolParameter.name := by
  rw [isMadeOf.fields, List.map_map]
  rfl

/-! ### Arguments -/

theorem validate_eq_ok_iff {model : ArgumentModel} {arguments checked : Members} :
    model.validate arguments = .ok checked ↔
      model.validator (.object (model.known (decodeArguments arguments))) = [] ∧
        model.complete (model.known (decodeArguments arguments)) = checked := by
  unfold validate
  dsimp only
  split
  · next none => simp [none]
  · next errors some => exact iff_of_false nofun fun both => some both.1

theorem keys_complete_subset (model : ArgumentModel) (arguments : Members) :
    (model.complete arguments).keys ⊆ model.fields.map Field.name := by
  intro key known
  obtain ⟨member, there, rfl⟩ := List.mem_map.mp known
  obtain ⟨field, listed, made⟩ := List.mem_filterMap.mp there
  obtain ⟨value, -, rfl⟩ := Option.map_eq_some_iff.mp made
  exact List.mem_map_of_mem listed

end ApiSurface.ArgumentModel
