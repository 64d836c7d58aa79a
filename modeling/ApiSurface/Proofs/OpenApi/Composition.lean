/-
This file proves what merging the members of a composition means. The merger folds the members into the
schema one after the other, and the required names go through two rules that read what the steps before
have left. The meaning is told without the steps: of the names, of the definitions and of every other
keyword it says which member decides, and a name is required if any member requires it, or only if all
do.

A list that is missing counts as an empty one. This is what the steps have to agree on: a variant without
required names makes nothing required, and the first variant, which is merged into nothing, is not held
against the names of nothing.
-/

import ApiSurface.Proofs.Json.Distinct
import ApiSurface.Proofs.OpenApi.Merging

namespace ApiSurface.OpenApi

open Json (Members)

/-! ### What a schema declares and requires -/

/-- The values that a schema lists under a keyword. -/
def listedUnder (keyword : String) (schema : Members) : List Json :=
  ((schema.get? keyword).bind Json.asArray?).getD []

/-- The properties that a schema declares. -/
def propertiesOf (schema : Members) : Members :=
  ((schema.get? "properties").bind Json.asObject?).getD []

/-- Whether a schema requires a property. -/
def Requires (schema : Members) (name : String) : Prop :=
  .text name ∈ listedUnder "required" schema

/-- The objects among some values. -/
def objectsIn (values : List Json) : List Members :=
  values.filterMap Json.asObject?

/-- The properties of a schema are an object and its required names a list, where it has them. -/
structure IsRegular (schema : Members) : Prop where
  properties : ∀ value, schema.get? "properties" = some value → ∃ members, value = .object members
  required : ∀ value, schema.get? "required" = some value → ∃ names, value = .array names

section

variable {schema added : Members} {keyword : String} {values : List Json}

theorem propertiesOf_of_none (missing : schema.get? "properties" = none) : propertiesOf schema = [] := by
  rw [propertiesOf, missing]
  rfl

theorem propertiesOf_of_some (found : schema.get? "properties" = some (.object added)) :
    propertiesOf schema = added := by
  rw [propertiesOf, found]
  rfl

theorem listedUnder_of_none (missing : schema.get? keyword = none) : listedUnder keyword schema = [] := by
  rw [listedUnder, missing]
  rfl

theorem listedUnder_of_some (found : schema.get? keyword = some (.array values)) :
    listedUnder keyword schema = values := by
  rw [listedUnder, found]
  rfl

theorem propertiesOf_congr {other : Members}
    (same : schema.get? "properties" = other.get? "properties") :
    propertiesOf schema = propertiesOf other := by
  rw [propertiesOf, same, propertiesOf]

theorem requires_congr {other : Members} (same : schema.get? "required" = other.get? "required")
    (name : String) : Requires schema name ↔ Requires other name := by
  rw [Requires, listedUnder, same, Requires, listedUnder]

/-- A schema that neither declares properties nor requires any. -/
theorem isRegular_of_missing (noProperties : schema.get? "properties" = none)
    (noRequired : schema.get? "required" = none) : IsRegular schema where
  properties _ found := absurd (noProperties.symm.trans found).symm (Option.some_ne_none _)
  required _ found := absurd (noRequired.symm.trans found).symm (Option.some_ne_none _)

theorem isRegular_nil : IsRegular [] :=
  isRegular_of_missing rfl rfl

end

/-! ### Required names -/

theorem same_text_iff {value : Json} {text : String} :
    value.same (.text text) = true ↔ value = .text text := by
  cases value <;> simp [Json.same]

theorem holds_text_iff {values : List Json} {text : String} :
    holds values (.text text) = true ↔ .text text ∈ values := by
  rw [holds, List.any_eq_true]
  constructor
  · rintro ⟨value, there, same⟩
    exact same_text_iff.mp same ▸ there
  · exact fun there => ⟨_, there, same_text_iff.mpr rfl⟩

theorem text_mem_union_iff {left right : List Json} {text : String} :
    .text text ∈ union left right ↔ .text text ∈ left ∨ .text text ∈ right := by
  induction right generalizing left with
  | nil => exact (or_iff_left List.not_mem_nil).symm
  | cons first rest inductionHypothesis =>
    rw [union, List.foldl_cons, ← union, inductionHypothesis, List.mem_cons, ← or_assoc]
    refine or_congr_left ?_
    split
    · next held =>
      -- A value that is held already may differ from the text only if it is no text.
      refine (or_iff_left_of_imp ?_).symm
      rintro rfl
      exact holds_text_iff.mp held
    · rw [List.mem_append, List.mem_singleton]

/-! ### Absorbing one member -/

section

variable {rule : RequiredRule} {schema member : Members} {key : String} {value : Json}

theorem get?_absorbMember_of_ne {other : String} (different : other ≠ key) :
    (absorbMember rule schema key value).get? other = schema.get? other := by
  unfold absorbMember
  split
  · next added =>
    split
    · rw [Members.get?_append, Members.get?_cons, if_neg different, Members.get?_nil, Option.or_none]
    · rw [Members.get?_insert, if_neg different]
    · rfl
  · rw [Members.get?_insert, if_neg different]
  · rw [Members.get?_insertNew, if_neg different, Option.or_none]

theorem absorbMember_other (notProperties : key ≠ "properties") (notRequired : key ≠ "required") :
    absorbMember rule schema key value = schema.insertNew key value := by
  simp [absorbMember, notProperties, notRequired]

theorem get?_absorb_of_notMem (new : key ∉ member.keys) :
    (absorb rule schema member).get? key = schema.get? key := by
  induction member generalizing schema with
  | nil => rfl
  | cons first rest inductionHypothesis =>
    obtain ⟨different, new⟩ := not_or.mp (mt List.mem_cons.mpr new)
    rw [absorb, List.foldl_cons, ← absorb, inductionHypothesis new, get?_absorbMember_of_ne different]

/-- What stands under a key of a member is put where the schema still has what it had under the key. -/
theorem exists_get?_absorb (rule : RequiredRule) (schema : Members) (distinct : member.keys.Nodup)
    (found : member.get? key = some value) :
    ∃ reached : Members, reached.get? key = schema.get? key ∧
      (absorb rule schema member).get? key = (absorbMember rule reached key value).get? key := by
  induction member generalizing schema with
  | nil => cases found
  | cons first rest inductionHypothesis =>
    obtain ⟨name, held⟩ := first
    obtain ⟨new, distinct⟩ := List.nodup_cons.mp distinct
    rw [absorb, List.foldl_cons, ← absorb]
    rw [Members.get?_cons] at found
    split at found
    · next same =>
      subst same
      obtain rfl := Option.some.inj found
      exact ⟨schema, rfl, get?_absorb_of_notMem new⟩
    · next different =>
      obtain ⟨reached, kept, absorbed⟩ := inductionHypothesis _ distinct found
      exact ⟨reached, kept.trans (get?_absorbMember_of_ne different), absorbed⟩

theorem get?_absorb_other (distinct : member.keys.Nodup) (notProperties : key ≠ "properties")
    (notRequired : key ≠ "required") :
    (absorb rule schema member).get? key = (schema.get? key).or (member.get? key) := by
  cases found : member.get? key with
  | none =>
    rw [get?_absorb_of_notMem (Members.notMem_keys_of_get?_eq_none found), Option.or_none]
  | some value =>
    obtain ⟨reached, kept, absorbed⟩ := exists_get?_absorb rule schema distinct found
    rw [absorbed, absorbMember_other notProperties notRequired, Members.get?_insertNew, if_pos rfl, kept]

/-- Absorbing puts the properties of a member into those of the schema. -/
theorem get?_absorb_properties (distinct : member.keys.Nodup) (regular : IsRegular schema)
    {added : Members} (found : member.get? "properties" = some (.object added)) :
    (absorb rule schema member).get? "properties" =
      some (.object ((propertiesOf schema).insertAll added)) := by
  obtain ⟨reached, kept, absorbed⟩ := exists_get?_absorb rule schema distinct found
  rw [absorbed]
  cases there : schema.get? "properties" with
  | none =>
    rw [there] at kept
    simp only [absorbMember, kept]
    rw [Members.get?_append, kept, propertiesOf_of_none there]
    rfl
  | some value =>
    obtain ⟨existing, rfl⟩ := regular.properties value there
    rw [there] at kept
    simp only [absorbMember, kept]
    rw [Members.get?_insert, if_pos rfl, propertiesOf_of_some there]

theorem get?_absorb_required (distinct : member.keys.Nodup) {added : List Json}
    (found : member.get? "required" = some (.array added)) :
    (absorb rule schema member).get? "required" =
      some (.array (mergedRequired rule (schema.get? "required") added)) := by
  obtain ⟨reached, kept, absorbed⟩ := exists_get?_absorb rule schema distinct found
  rw [absorbed]
  simp only [absorbMember, kept]
  rw [Members.get?_insert, if_pos rfl]

variable (regular : IsRegular schema) (memberRegular : IsRegular member) (distinct : member.keys.Nodup)
include regular memberRegular distinct

theorem isRegular_absorb : IsRegular (absorb rule schema member) := by
  constructor
  · intro value found
    cases own : member.get? "properties" with
    | none =>
      rw [get?_absorb_of_notMem (Members.notMem_keys_of_get?_eq_none own)] at found
      exact regular.properties value found
    | some properties =>
      obtain ⟨added, rfl⟩ := memberRegular.properties properties own
      rw [get?_absorb_properties distinct regular own] at found
      exact ⟨_, (Option.some.inj found).symm⟩
  · intro value found
    cases own : member.get? "required" with
    | none =>
      rw [get?_absorb_of_notMem (Members.notMem_keys_of_get?_eq_none own)] at found
      exact regular.required value found
    | some names =>
      obtain ⟨added, rfl⟩ := memberRegular.required names own
      rw [get?_absorb_required distinct own] at found
      exact ⟨_, (Option.some.inj found).symm⟩

theorem propertiesOf_absorb :
    propertiesOf (absorb rule schema member) = (propertiesOf schema).insertAll (propertiesOf member) := by
  cases own : member.get? "properties" with
  | none =>
    rw [propertiesOf_of_none own]
    exact propertiesOf_congr (get?_absorb_of_notMem (Members.notMem_keys_of_get?_eq_none own))
  | some properties =>
    obtain ⟨added, rfl⟩ := memberRegular.properties properties own
    rw [propertiesOf_of_some own, propertiesOf_of_some (get?_absorb_properties distinct regular own)]

theorem requires_absorb_either {name : String} :
    Requires (absorb .either schema member) name ↔ Requires schema name ∨ Requires member name := by
  cases own : member.get? "required" with
  | none =>
    rw [requires_congr (get?_absorb_of_notMem (Members.notMem_keys_of_get?_eq_none own)),
      Requires, Requires, listedUnder_of_none own]
    exact (or_iff_left List.not_mem_nil).symm
  | some names =>
    obtain ⟨added, rfl⟩ := memberRegular.required names own
    rw [Requires, listedUnder_of_some (get?_absorb_required distinct own), Requires, Requires,
      listedUnder_of_some own]
    cases there : schema.get? "required" with
    | none =>
      rw [listedUnder_of_none there]
      exact (or_iff_right List.not_mem_nil).symm
    | some value =>
      obtain ⟨existing, rfl⟩ := regular.required value there
      rw [listedUnder_of_some there]
      exact text_mem_union_iff

/-- After one more variant, only what it requires as well is required. -/
theorem requires_absorbVariant {name : String} :
    Requires (absorbVariant schema (.object member)) name ↔
      Requires schema name ∧ Requires member name := by
  unfold absorbVariant
  dsimp only
  cases own : member.get? "required" with
  | none =>
    have new := Members.notMem_keys_of_get?_eq_none own
    have emptied : (schema.insert "required" (.array [])).get? "required" = some (.array []) := by
      rw [Members.get?_insert, if_pos rfl]
    have nothing : ¬Requires member name := by
      rw [Requires, listedUnder_of_none own]
      exact List.not_mem_nil
    rw [if_neg (mt Members.contains_eq_true_iff.mp new), requires_congr (get?_absorb_of_notMem new),
      Requires, listedUnder_of_some emptied]
    exact iff_of_false List.not_mem_nil fun both => nothing both.2
  | some names =>
    obtain ⟨added, rfl⟩ := memberRegular.required names own
    have known : Members.contains member "required" = true :=
      Members.contains_eq_true_iff.mpr (List.mem_map_of_mem (Members.mem_of_get? own))
    rw [if_pos known, Requires, listedUnder_of_some (get?_absorb_required distinct own), Requires,
      Requires, listedUnder_of_some own]
    cases there : schema.get? "required" with
    | none =>
      rw [listedUnder_of_none there]
      exact iff_of_false List.not_mem_nil fun both => List.not_mem_nil both.1
    | some value =>
      obtain ⟨existing, rfl⟩ := regular.required value there
      rw [listedUnder_of_some there]
      exact List.mem_filter.trans (and_congr_right fun _ => holds_text_iff)

end

/-! ### Gathering members -/

/-- What a schema holds that gathers some parts, apart from what it requires and from some keywords: the
names of all parts in the order of their first appearance, each with its last definition, and the first
value of any other keyword. -/
structure Gathers (apart : List String) (parts : List Members) (whole : Members) : Prop where
  distinct : whole.keys.Nodup
  regular : IsRegular whole
  names : (propertiesOf whole).keys = (parts.flatMap fun part => (propertiesOf part).keys).eraseDups
  definitions : ∀ name, (propertiesOf whole).get? name =
    parts.reverse.findSome? fun part => (propertiesOf part).get? name
  others : ∀ key ∉ "properties" :: "required" :: apart,
    whole.get? key = parts.findSome? fun part => part.get? key

section

variable {apart : List String} {parts before after : List Members} {whole member : Members}

theorem Gathers.nodup_names (gathers : Gathers apart parts whole) : (propertiesOf whole).keys.Nodup := by
  rw [gathers.names]
  exact Keyed.nodup_eraseDups _

theorem gathers_nil : Gathers apart [] [] :=
  ⟨List.nodup_nil, isRegular_nil, rfl, fun _ => rfl, fun _ _ => rfl⟩

theorem gathers_single (distinct : whole.keys.Nodup) (regular : IsRegular whole)
    (declared : (propertiesOf whole).keys.Nodup) : Gathers apart [whole] whole := by
  refine ⟨distinct, regular, ?_, fun name => ?_, fun key _ => ?_⟩
  · rw [List.flatMap_singleton, Keyed.eraseDups_of_nodup declared]
  · rw [List.reverse_singleton, List.findSome?_singleton]
  · rw [List.findSome?_singleton]

/-- Gathering goes on with any schema that gathers more parts. -/
theorem Gathers.absorb (gathers : Gathers apart before whole) (more : Gathers apart after member)
    (rule : RequiredRule) : Gathers apart (before ++ after) (absorb rule whole member) := by
  have declared : propertiesOf (OpenApi.absorb rule whole member) =
      (propertiesOf whole).insertAll (propertiesOf member) :=
    propertiesOf_absorb gathers.regular more.regular more.distinct
  have kept : Keeps "description" whole (OpenApi.absorb rule whole member) :=
    (Keeps.refl gathers.distinct _).absorb (by decide) (by decide) rule member
  refine ⟨kept.distinct, isRegular_absorb gathers.regular more.regular more.distinct, ?_, fun name => ?_,
    fun key other => ?_⟩
  · rw [declared, Members.insertAll_eq_putAll, Members.keys, Keyed.map_putAll gathers.nodup_names,
      ← Members.keys, ← Members.keys, gathers.names, more.names, Keyed.eraseDups_append_eraseDups,
      ← List.flatMap_append]
  · rw [declared, Members.get?_insertAll, Members.get?_reverse more.nodup_names, gathers.definitions,
      more.definitions, List.reverse_append, List.findSome?_append]
  · have notCombined := other
    simp only [List.mem_cons, not_or] at notCombined
    rw [get?_absorb_other more.distinct notCombined.1 notCombined.2.1, gathers.others key other,
      more.others key other, List.findSome?_append]

theorem Gathers.mono (gathers : Gathers apart parts whole) {further : List String}
    (more : apart ⊆ "properties" :: "required" :: further) : Gathers further parts whole := by
  refine { gathers with others := fun key other => gathers.others key fun inside => other ?_ }
  rcases List.mem_cons.mp inside with rfl | inside
  · exact List.mem_cons_self
  · rcases List.mem_cons.mp inside with rfl | inside
    · exact List.mem_cons_of_mem _ List.mem_cons_self
    · exact more inside

/-- Another value under a keyword counts only for the keyword. -/
theorem Gathers.insert (gathers : Gathers apart parts whole) (key : String) (value : Json)
    (notProperties : key ≠ "properties") (listed : key = "required" → ∃ names, value = .array names) :
    Gathers (key :: apart) parts (whole.insert key value) := by
  have sameProperties : (whole.insert key value).get? "properties" = whole.get? "properties" := by
    rw [Members.get?_insert, if_neg (Ne.symm notProperties)]
  have declared := propertiesOf_congr sameProperties
  refine ⟨Members.nodup_keys_insert gathers.distinct key value, ⟨fun properties found => ?_,
    fun names found => ?_⟩, declared ▸ gathers.names, declared ▸ gathers.definitions,
    fun other different => ?_⟩
  · exact gathers.regular.properties properties (sameProperties ▸ found)
  · rw [Members.get?_insert] at found
    split at found
    · next same => exact Option.some.inj found ▸ listed same.symm
    · exact gathers.regular.required names found
  · simp only [List.mem_cons, not_or] at different
    rw [Members.get?_insert, if_neg different.2.2.1]
    exact gathers.others other (by simp [different])

/-- What each step says of the parts so far, the last one says of all parts. -/
theorem foldl_parts (before : List Members) (holds : List Members → Members → Prop)
    {step : Members → Members → Members}
    (steps : ∀ gone reached, ∀ part ∈ parts, holds gone reached → holds (gone ++ [part]) (step reached part))
    (start : holds before whole) : holds (before ++ parts) (parts.foldl step whole) := by
  induction parts generalizing before whole with
  | nil => exact (List.append_nil before).symm ▸ start
  | cons first rest inductionHypothesis =>
    rw [List.append_cons, List.foldl_cons]
    exact inductionHypothesis _
      (fun gone reached part there => steps gone reached part (List.mem_cons_of_mem _ there))
      (steps before whole first List.mem_cons_self start)

end

/-! ### The members of one keyword -/

theorem nodup_propertiesOf {schema : Members} (distinct : (Json.object schema).HasDistinctKeys) :
    (propertiesOf schema).keys.Nodup := by
  cases found : schema.get? "properties" with
  | none =>
    rw [propertiesOf_of_none found]
    exact List.nodup_nil
  | some value =>
    rw [propertiesOf, found]
    exact (distinct.of_get? found).members.nodup_keys

/-- The parts of a schema can be gathered: no key repeats, and what is merged has its kind. -/
theorem gathers_part {part : Members} (distinct : (Json.object part).HasDistinctKeys)
    (regular : IsRegular part) : Gathers [] [part] part :=
  gathers_single distinct.nodup_keys regular (nodup_propertiesOf distinct)

section

variable {schema whole : Members} {keyword : String} {parts : List Members}
  (distinct : (Json.object schema).HasDistinctKeys) (composes : keyword ∈ compositionKeywords)
include distinct composes

/-- Taking the keyword of a composition out leaves what is merged. -/
theorem get?_erase_merged {key : String} (merged : key ∈ ["properties", "required", "nullable"]) :
    (schema.erase keyword).get? key = schema.get? key := by
  have apart : ∀ keyword ∈ compositionKeywords, keyword ∉ ["properties", "required", "nullable"] := by
    decide
  refine (Members.get?_erase distinct.nodup_keys keyword key).trans (if_neg ?_)
  rintro rfl
  exact apart key composes merged

theorem propertiesOf_erase : propertiesOf (schema.erase keyword) = propertiesOf schema :=
  propertiesOf_congr (get?_erase_merged distinct composes (by decide))

theorem requires_erase (name : String) : Requires (schema.erase keyword) name ↔ Requires schema name :=
  requires_congr (get?_erase_merged distinct composes (by decide)) name

theorem gathers_erase (regular : IsRegular schema) :
    Gathers [] [schema.erase keyword] (schema.erase keyword) := by
  refine gathers_single (Members.nodup_keys_erase distinct.nodup_keys keyword) ⟨?_, ?_⟩ ?_
  · rw [get?_erase_merged distinct composes (by decide)]
    exact regular.properties
  · rw [get?_erase_merged distinct composes (by decide)]
    exact regular.required
  · rw [propertiesOf_erase distinct composes]
    exact nodup_propertiesOf distinct

/-- What gathers a schema without a keyword, and parts without it, has lost the keyword and gathers the
schema in everything else. -/
theorem Gathers.of_erase (gathers : Gathers [] (schema.erase keyword :: parts) whole)
    (without : ∀ part ∈ parts, keyword ∉ part.keys) :
    Gathers [keyword] (schema :: parts) whole ∧ keyword ∉ whole.keys := by
  have declared := propertiesOf_erase distinct composes
  have elsewhere (key : String) := Members.get?_erase distinct.nodup_keys keyword key
  refine ⟨⟨gathers.distinct, gathers.regular, ?_, fun name => ?_, fun key other => ?_⟩,
    Members.notMem_keys_of_get?_eq_none ?_⟩
  · rw [gathers.names, List.flatMap_cons, List.flatMap_cons, declared]
  · rw [gathers.definitions, List.reverse_cons, List.reverse_cons, List.findSome?_append,
      List.findSome?_append, List.findSome?_singleton, List.findSome?_singleton, declared]
  · simp only [List.mem_cons, List.not_mem_nil, or_false, not_or] at other
    rw [gathers.others key (by simp [other]), List.findSome?_cons, List.findSome?_cons, elsewhere,
      if_neg other.2.2]
  · have apart : ∀ keyword ∈ compositionKeywords, keyword ∉ ["properties", "required"] := by decide
    rw [gathers.others keyword (apart keyword composes), List.findSome?_cons, elsewhere, if_pos rfl,
      List.findSome?_eq_none_iff]
    exact fun part there => Members.get?_eq_none_of_notMem (without part there)

end

/-! ### The two mergers -/

section

variable {schema : Members} {values : List Json}

theorem hasDistinctKeys_of_mem_objectsIn (distinct : (Json.array values).HasDistinctKeys) {part : Members}
    (there : part ∈ objectsIn values) : (Json.object part).HasDistinctKeys := by
  obtain ⟨value, inside, isObject⟩ := List.mem_filterMap.mp there
  cases value with
  | object members =>
    obtain rfl := Option.some.inj isObject
    exact Json.hasDistinctKeys_array_iff.mp distinct _ inside
  | _ => cases isObject

theorem hasDistinctKeys_listedUnder (distinct : (Json.object schema).HasDistinctKeys) (keyword : String) :
    (Json.array (listedUnder keyword schema)).HasDistinctKeys := by
  unfold listedUnder
  cases found : schema.get? keyword with
  | none => exact Json.hasDistinctKeys_array_iff.mpr nofun
  | some value =>
    cases value with
    | array values => exact distinct.of_get? found
    | _ => exact Json.hasDistinctKeys_array_iff.mpr nofun

theorem mergeAllOf_eq (schema : Members) :
    mergeAllOf schema =
      (objectsIn (listedUnder "allOf" schema)).foldl (absorb .either) (schema.erase "allOf") := by
  unfold mergeAllOf listedUnder
  cases found : schema.get? "allOf" with
  | none =>
    rcases Members.erase_cases schema "allOf" with ⟨-, same⟩ | ⟨before, gone, after, whole, same, -⟩
    · exact same.symm
    · have there : gone ∈ schema := whole ▸ List.mem_append_right before List.mem_cons_self
      obtain ⟨value, known⟩ := Members.exists_get?_of_mem (same ▸ there : ("allOf", gone.2) ∈ schema)
      rw [found] at known
      cases known
  | some value =>
    cases value with
    | array members =>
      show members.foldl _ _ = (objectsIn members).foldl _ _
      rw [objectsIn, List.foldl_filterMap]
      refine congrArg (List.foldl · (schema.erase "allOf") members) (funext₂ fun reached member => ?_)
      cases member <;> rfl
    | _ => rfl

theorem eq_map_objectsIn (objects : ∀ value ∈ values, isObjectSchema value = true) :
    values = (objectsIn values).map Json.object := by
  induction values with
  | nil => rfl
  | cons first rest inductionHypothesis =>
    have later := inductionHypothesis fun value there => objects value (List.mem_cons_of_mem _ there)
    cases first with
    | object members => exact congrArg (Json.object members :: ·) later
    | _ => exact absurd (objects _ List.mem_cons_self) Bool.false_ne_true

/-- The merger of variants that describe objects gathers them, and requires what they all require. -/
theorem gathers_mergedVariants {first : Members} {rest : List Members}
    (distinct : ∀ part ∈ first :: rest, (Json.object part).HasDistinctKeys)
    (regular : ∀ part ∈ first :: rest, IsRegular part) :
    Gathers [] (first :: rest) (mergedVariants ((first :: rest).map Json.object)) ∧
      ∀ name, Requires (mergedVariants ((first :: rest).map Json.object)) name ↔
        ∀ part ∈ first :: rest, Requires part name := by
  have merged : mergedVariants ((first :: rest).map Json.object) =
      rest.foldl (fun reached part => absorbVariant reached (.object part)) (absorb .either [] first) :=
    List.foldl_map
  rw [merged]
  refine foldl_parts [first] (fun parts reached => Gathers [] parts reached ∧
    ∀ name, Requires reached name ↔ ∀ part ∈ parts, Requires part name) ?_ ⟨?_, fun name => ?_⟩
  · rintro gone reached part there ⟨gathers, requires⟩
    have single := gathers_part (distinct part (List.mem_cons_of_mem _ there))
      (regular part (List.mem_cons_of_mem _ there))
    refine ⟨?_, fun name => ?_⟩
    · unfold absorbVariant
      dsimp only
      split
      · exact gathers.absorb single .both
      · refine Gathers.absorb ((gathers.insert _ _ (by decide) fun _ => ⟨_, rfl⟩).mono ?_) single .both
        decide
    · rw [requires_absorbVariant gathers.regular single.regular single.distinct, requires]
      simp only [List.forall_mem_append, List.forall_mem_singleton]
  · exact gathers_nil.absorb (gathers_part (distinct first List.mem_cons_self)
      (regular first List.mem_cons_self)) .either
  · rw [requires_absorb_either isRegular_nil (regular first List.mem_cons_self)
      (distinct first List.mem_cons_self).nodup_keys, List.forall_mem_singleton]
    exact or_iff_right List.not_mem_nil

theorem collapsed?_of_objects (several : 2 ≤ values.length)
    (objects : ∀ value ∈ values, isObjectSchema value = true) :
    collapsed? values = some (mergedVariants values) := by
  match values with
  | first :: second :: rest => exact if_pos (List.all_eq_true.mpr objects)

theorem collapseVariants_eq {keyword : String} {variants : List Json}
    (others : variants = (listedUnder keyword schema).filter fun variant => !isNullSchema variant)
    (several : 2 ≤ variants.length) (objects : ∀ variant ∈ variants, isObjectSchema variant = true) :
    collapseVariants keyword schema =
      if (listedUnder keyword schema).any isNullSchema then
        (absorb .either (schema.erase keyword) (mergedVariants variants)).insert "nullable" (.bool true)
      else absorb .either (schema.erase keyword) (mergedVariants variants) := by
  have collapsed := collapsed?_of_objects several objects
  have listed : ∃ values, schema.get? keyword = some (.array values) := by
    unfold listedUnder at others
    cases found : schema.get? keyword with
    | none => simp [found] at others; simp [others] at several
    | some value =>
      cases value with
      | array values => exact ⟨values, rfl⟩
      | _ => simp [found, Json.asArray?] at others; simp [others] at several
  obtain ⟨values, found⟩ := listed
  rw [listedUnder_of_some found] at others ⊢
  have fewer : variants.length < values.length ↔ values.any isNullSchema = true := by
    rw [others, List.length_filter_lt_length_iff_exists, List.any_eq_true]
    simp
  subst others
  simp only [collapseVariants, found, collapsed, fewer]

end

/-- Members that can be merged are of the kind that is merged and do not carry the keyword themselves. -/
def AreMergeable (keyword : String) (parts : List Members) : Prop :=
  ∀ part ∈ parts, IsRegular part ∧ keyword ∉ part.keys

/-- What a merger is: the keyword is gone, the parts are gathered apart from it and from what is decided
otherwise, and the names that count are required. -/
structure IsMerger (keyword : String) (apart : List String) (parts : List Members)
    (required : String → Prop) (whole : Members) : Prop where
  gone : keyword ∉ whole.keys
  gathers : Gathers (keyword :: apart) parts whole
  required : ∀ name, Requires whole name ↔ required name

/-- A merger that is made nullable is one apart from that. -/
theorem IsMerger.nullable {keyword : String} (composes : keyword ∈ compositionKeywords)
    {parts : List Members} {required : String → Prop} {whole : Members}
    (merger : IsMerger keyword [] parts required whole) :
    IsMerger keyword ["nullable"] parts required (whole.insert "nullable" (.bool true)) := by
  have different : ∀ keyword ∈ compositionKeywords, keyword ≠ "nullable" := by decide
  have kept (key : String) (other : key ≠ "nullable") :
      (whole.insert "nullable" (.bool true)).get? key = whole.get? key := by
    rw [Members.get?_insert, if_neg other]
  refine ⟨Members.notMem_keys_of_get?_eq_none ?_, ?_, fun name => ?_⟩
  · rw [kept keyword (different keyword composes)]
    exact Members.get?_eq_none_of_notMem merger.gone
  · refine (merger.gathers.insert "nullable" _ (by decide) fun listed => ?_).mono fun key there => ?_
    · exact absurd listed (by decide)
    · exact List.mem_cons_of_mem _ (List.mem_cons_of_mem _ ((List.Perm.swap keyword "nullable" []).subset there))
  · rw [requires_congr (kept "required" (by decide)), merger.required]

section

variable {schema : Members} (distinct : (Json.object schema).HasDistinctKeys) (regular : IsRegular schema)
include distinct regular

/-- What `allOf` lists is required along with the schema if anything requires it. -/
theorem isMerger_mergeAllOf (mergeable : AreMergeable "allOf" (objectsIn (listedUnder "allOf" schema))) :
    IsMerger "allOf" [] (schema :: objectsIn (listedUnder "allOf" schema))
      (fun name => ∃ part ∈ schema :: objectsIn (listedUnder "allOf" schema), Requires part name)
      (mergeAllOf schema) := by
  have composes : "allOf" ∈ compositionKeywords := by decide
  have merged : Gathers [] (schema.erase "allOf" :: objectsIn (listedUnder "allOf" schema))
        (mergeAllOf schema) ∧ ∀ name, Requires (mergeAllOf schema) name ↔
      ∃ part ∈ schema.erase "allOf" :: objectsIn (listedUnder "allOf" schema), Requires part name := by
    rw [mergeAllOf_eq]
    refine foldl_parts [schema.erase "allOf"] (fun parts reached =>
      Gathers [] parts reached ∧ ∀ name, Requires reached name ↔ ∃ part ∈ parts, Requires part name)
      ?_ ⟨gathers_erase distinct composes regular, fun name => ?_⟩
    · rintro gone reached part there ⟨gathers, requires⟩
      have whole := hasDistinctKeys_of_mem_objectsIn (hasDistinctKeys_listedUnder distinct "allOf") there
      have single := gathers_part whole (mergeable part there).1
      refine ⟨gathers.absorb single .either, fun name => ?_⟩
      rw [requires_absorb_either gathers.regular single.regular single.distinct, requires]
      simp only [List.mem_append, List.mem_singleton, or_and_right, exists_or, exists_eq_left]
    · simp only [List.mem_singleton, exists_eq_left]
  obtain ⟨gathers, gone⟩ := merged.1.of_erase distinct composes fun part there => (mergeable part there).2
  refine ⟨gone, gathers, fun name => ?_⟩
  rw [merged.2, List.exists_mem_cons_iff, List.exists_mem_cons_iff, requires_erase distinct composes]

/-- Of variants that describe objects, what all of them require is required along with what the schema
requires, and a variant that is just null makes the schema nullable. -/
theorem isMerger_collapseVariants {keyword : String} (composes : keyword ∈ compositionKeywords)
    {variants : List Json}
    (others : variants = (listedUnder keyword schema).filter fun variant => !isNullSchema variant)
    (several : 2 ≤ variants.length) (objects : ∀ variant ∈ variants, isObjectSchema variant = true)
    (mergeable : AreMergeable keyword (objectsIn variants)) :
    IsMerger keyword (if (listedUnder keyword schema).any isNullSchema then ["nullable"] else [])
        (schema :: objectsIn variants)
        (fun name => Requires schema name ∨ ∀ part ∈ objectsIn variants, Requires part name)
        (collapseVariants keyword schema) ∧
      ((listedUnder keyword schema).any isNullSchema = true →
        (collapseVariants keyword schema).get? "nullable" = some (.bool true)) := by
  have whole (part : Members) (there : part ∈ objectsIn variants) :
      (Json.object part).HasDistinctKeys := by
    refine hasDistinctKeys_of_mem_objectsIn (hasDistinctKeys_listedUnder distinct keyword) ?_
    exact List.Sublist.subset (List.Sublist.filterMap _ (others ▸ List.filter_sublist)) there
  obtain ⟨first, rest, parts⟩ : ∃ first rest, objectsIn variants = first :: rest := by
    refine List.exists_cons_of_length_pos ?_
    rw [eq_map_objectsIn objects, List.length_map] at several
    exact Nat.lt_of_lt_of_le Nat.zero_lt_two several
  have merged := gathers_mergedVariants (parts ▸ whole) (parts ▸ fun part there => (mergeable part there).1)
  rw [← parts, ← eq_map_objectsIn objects] at merged
  have base := gathers_erase distinct composes regular
  obtain ⟨gathers, gone⟩ := (base.absorb merged.1 .either).of_erase distinct composes
    fun part there => (mergeable part there).2
  have merger : IsMerger keyword [] (schema :: objectsIn variants)
      (fun name => Requires schema name ∨ ∀ part ∈ objectsIn variants, Requires part name)
      (absorb .either (schema.erase keyword) (mergedVariants variants)) := by
    refine ⟨gone, gathers, fun name => ?_⟩
    rw [requires_absorb_either base.regular merged.1.regular merged.1.distinct, merged.2,
      requires_erase distinct composes]
  rw [collapseVariants_eq others several objects]
  split
  · exact ⟨merger.nullable composes, fun _ => by rw [Members.get?_insert, if_pos rfl]⟩
  · next plain => exact ⟨merger, fun nullable => absurd nullable plain⟩

end

/-- Merging the members of a composition has the meaning that does not name its steps, whether what `allOf`
lists is merged or at least two variants that describe objects, with or without a null among them. -/
theorem isMerger_composition {schema : Members} (distinct : (Json.object schema).HasDistinctKeys)
    (regular : IsRegular schema) :
    (AreMergeable "allOf" (objectsIn (listedUnder "allOf" schema)) →
      IsMerger "allOf" [] (schema :: objectsIn (listedUnder "allOf" schema))
        (fun name => ∃ part ∈ schema :: objectsIn (listedUnder "allOf" schema), Requires part name)
        (mergeAllOf schema)) ∧
    ∀ keyword ∈ compositionKeywords, ∀ variants,
      variants = (listedUnder keyword schema).filter (fun variant => !isNullSchema variant) →
      2 ≤ variants.length → (∀ variant ∈ variants, isObjectSchema variant = true) →
      AreMergeable keyword (objectsIn variants) →
        IsMerger keyword (if (listedUnder keyword schema).any isNullSchema then ["nullable"] else [])
            (schema :: objectsIn variants)
            (fun name => Requires schema name ∨ ∀ part ∈ objectsIn variants, Requires part name)
            (collapseVariants keyword schema) ∧
          ((listedUnder keyword schema).any isNullSchema = true →
            (collapseVariants keyword schema).get? "nullable" = some (.bool true)) :=
  ⟨isMerger_mergeAllOf distinct regular, fun _ composes _ others several objects mergeable =>
    isMerger_collapseVariants distinct regular composes others several objects mergeable⟩

/-- A member that declares one property and requires some. -/
def petPart (property : String) (definition : Json) (required : List String) : Members :=
  [("properties", .object [(property, definition)]), ("required", .ofTexts required)]

/-- A schema with two compositions, where one variant is just null and one requires nothing. -/
def petSchema : Members :=
  petPart "id" (.object []) ["id"] ++
    [("allOf", .array [.object (petPart "name" .null ["name"]), .bool true,
        .object (petPart "id" (.text "last") [])]),
      ("oneOf", .array [.object (petPart "tail" .null ["id", "tail"]),
        .object [("type", .text "null")],
        .object [("type", .text "object"), ("title", .text "Fish")]])]

theorem isMerger_composition_petSchema :
    IsMerger "allOf" []
        [petSchema, petPart "name" .null ["name"], petPart "id" (.text "last") []]
        (fun name => ∃ part ∈ [petSchema, petPart "name" .null ["name"], petPart "id" (.text "last") []],
          Requires part name)
        (mergeAllOf petSchema) ∧
      IsMerger "oneOf" ["nullable"]
        [petSchema, petPart "tail" .null ["id", "tail"],
          [("type", .text "object"), ("title", .text "Fish")]]
        (fun name => Requires petSchema name ∨
          ∀ part ∈ [petPart "tail" .null ["id", "tail"],
            [("type", .text "object"), ("title", .text "Fish")]], Requires part name)
        (collapseVariants "oneOf" petSchema) := by
  have distinct : (Json.object petSchema).HasDistinctKeys := by
    simp [petSchema, petPart, Json.hasDistinctKeys_object_iff, Json.hasDistinctKeys_array_iff,
      Members.keys, Json.ofTexts]
  have part (property : String) (definition : Json) (required : List String) (rest : Members) :
      IsRegular (petPart property definition required ++ rest) :=
    ⟨fun _ found => ⟨_, (Option.some.inj found).symm⟩, fun _ found => ⟨_, (Option.some.inj found).symm⟩⟩
  have merged := isMerger_composition distinct (part _ _ _ _)
  refine ⟨merged.1 ?_, (merged.2 "oneOf" (by decide) _ rfl (by decide) (by decide) ?_).1⟩
  · exact List.forall_mem_cons.mpr ⟨⟨part _ _ _ [], by decide⟩,
      List.forall_mem_singleton.mpr ⟨part _ _ _ [], by decide⟩⟩
  · exact List.forall_mem_cons.mpr ⟨⟨part _ _ _ [], by decide⟩,
      List.forall_mem_singleton.mpr ⟨isRegular_of_missing rfl rfl, by decide⟩⟩

end ApiSurface.OpenApi
