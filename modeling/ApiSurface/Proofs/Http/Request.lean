/-
This file proves when a plan makes a request from arguments and what the request is then. Needed
arguments are looked for first and in the order of the plan; after that only the path can fail, and
only if an argument of a placeholder is not given. What stands for an argument there tells which one it was
and holds nothing that could end the path or a step of it. Of the arguments nothing counts but those that
are given under the names of the plan.
-/

import ApiSurface.Client.Statement
import ApiSurface.Http.Request
import ApiSurface.Proofs.Text.Percent
import ApiSurface.Proofs.Text.Search
import Mathlib.Data.List.Basic
import Mathlib.Data.List.Find

namespace ApiSurface

open Json (Members)

/-! ### Given arguments -/

/-- An argument is given under a name: it is there and not null. -/
def IsGiven (arguments : Members) (name : String) (value : Json) : Prop :=
  arguments.get? name = some value ∧ value ≠ .null

theorem present?_eq_some_iff {arguments : Members} {name : String} {value : Json} :
    present? arguments name = some value ↔ IsGiven arguments name value := by
  rw [present?, Option.filter_eq_some_iff]
  refine and_congr_right fun _ => ?_
  cases value <;> simp [Json.isNull]

theorem isSome_present?_iff {arguments : Members} {name : String} :
    (present? arguments name).isSome = true ↔ ∃ value, IsGiven arguments name value := by
  rw [Option.isSome_iff_exists]
  exact exists_congr fun _ => present?_eq_some_iff

/-- Nothing is present if and only if an argument is missing or null. -/
theorem present?_eq_none_iff {arguments : Members} {name : String} :
    present? arguments name = none ↔ ¬ ∃ value, IsGiven arguments name value := by
  rw [← isSome_present?_iff, Bool.not_eq_true, Option.isSome_eq_false_iff, Option.isNone_iff_eq_none]

theorem present?_congr {arguments other : Members} {name : String}
    (same : ∀ value, IsGiven other name value ↔ IsGiven arguments name value) :
    present? other name = present? arguments name := by
  ext value
  rw [present?_eq_some_iff, present?_eq_some_iff]
  exact same value

namespace RequestPlan

variable {arguments other : Members} {plan : RequestPlan}

/-! ### Needed arguments -/

theorem missing?_eq_none_iff :
    plan.missing? arguments = none ↔
      ∀ name ∈ plan.required, (present? arguments name).isSome = true := by
  rw [missing?, List.find?_eq_none]
  refine forall₂_congr fun name _ => ?_
  rw [Bool.not_eq_true, Option.isNone_eq_false_iff]

theorem missing?_eq_some_iff {name : String} :
    plan.missing? arguments = some name ↔
      present? arguments name = none ∧
        ∃ before after, plan.required = before ++ name :: after ∧
          ∀ earlier ∈ before, (present? arguments earlier).isSome = true := by
  rw [missing?, List.find?_eq_some_iff_append, Option.isNone_iff_eq_none]
  refine and_congr_right fun _ => exists₂_congr fun before after => and_congr_right fun _ => ?_
  refine forall₂_congr fun earlier _ => ?_
  rw [Bool.not_eq_true', Option.isNone_eq_false_iff]

/-! ### Paths -/

/-- The text of an argument as it stands in a path. -/
def encoded (arguments : Members) (internal : String) : List Char :=
  (present? arguments internal).elim [] fun value => Text.percentEncode (pathText value).toList

/-- A path is filled if the arguments of all placeholders are given, whether or not they occur in it. -/
theorem fillPath_eq_ok_iff {path filled : List Char} {bindings : List Binding} :
    fillPath arguments path bindings = .ok filled ↔
      (∀ binding ∈ bindings, (present? arguments binding.internal).isSome = true) ∧
      bindings.foldl
        (fun path binding =>
          Text.replaceAll (Client.placeholder binding.external) (encoded arguments binding.internal)
            path)
        path = filled := by
  induction bindings generalizing path with
  | nil => simp [fillPath]
  | cons first rest inductionHypothesis =>
    rw [fillPath, List.forall_mem_cons, List.foldl_cons]
    cases found : present? arguments first.internal with
    | none => simp
    | some value =>
      have same : encoded arguments first.internal = Text.percentEncode (pathText value).toList := by
        rw [encoded, found]
        rfl
      rw [inductionHypothesis, same]
      simp [replacePlaceholder, Client.placeholder]

/-- Whether a character ends a step of a path or the path, or marks a placeholder. -/
def isSeparator (character : Char) : Bool :=
  ['/', '?', '#', '\x7b', '\x7d'].contains character

theorem isSeparator_of_mem_percentEncode {text : List Char} {character : Char}
    (member : character ∈ Text.percentEncode text) : isSeparator character = false := by
  have each : ∀ separator ∈ ['/', '?', '#', '\x7b', '\x7d'],
      separator ≠ '%' ∧ Text.isUnreserved separator = false := by
    simp [Text.isUnreserved, Text.isAlphanumeric, Text.isLetter, Text.isDigit, Char.le_def]
  refine Bool.eq_false_iff.mpr fun separates => ?_
  obtain ⟨noPercent, reserved⟩ := each character (List.contains_iff_mem.mp separates)
  rcases Text.mem_percentEncode member with percent | unreserved
  · exact noPercent percent
  · exact Bool.false_ne_true (reserved.symm.trans unreserved)

/-- A value in place of a placeholder brings no separator into a path. -/
theorem filter_isSeparator_replacePlaceholder (path : List Char) (name : String) (value : Json) :
    ((replacePlaceholder path name value).filter isSeparator).Sublist (path.filter isSeparator) :=
  Text.filter_replaceFrom_sublist (fun _ => isSeparator_of_mem_percentEncode) 0 path

/-- A text as it stands in a path consists of characters that stand for themselves and of bytes with a
percent sign each, reads back byte for byte, is that of no other text, and brings no separator into the
path. -/
theorem percentEncode_reads_back (text : String) :
    Text.IsPercentEncoded (Text.percentEncode text.toList) ∧
      (Text.percentDecode (Text.percentEncode text.toList)).toByteArray = text.toByteArray ∧
      (∀ other : String,
        Text.percentEncode other.toList = Text.percentEncode text.toList → other = text) ∧
      (∀ character ∈ Text.percentEncode text.toList, isSeparator character = false) ∧
      ∀ path name, ((replacePlaceholder path name (.text text)).filter isSeparator).Sublist
        (path.filter isSeparator) :=
  ⟨Text.isPercentEncoded_percentEncode text.toList, Text.percentDecode_percentEncode text,
    fun _ => Text.percentEncode_injective, fun _ => isSeparator_of_mem_percentEncode,
    fun path name => filter_isSeparator_replacePlaceholder path name (.text text)⟩

/-! ### Requests -/

/-- A request is made if all needed arguments are given and all those of placeholders. -/
theorem request_eq_ok_iff {request : HttpRequest} :
    plan.request arguments = .ok request ↔
      (∀ name ∈ plan.required, (present? arguments name).isSome = true) ∧
      ∃ path, fillPath arguments plan.path.toList plan.pathBindings = .ok path ∧
        request = {
          verb := plan.verb
          path := String.ofList path
          query := presentBindings arguments plan.queryBindings
          payload := payload arguments plan.body
          contentType? := plan.body.contentType? } := by
  rw [RequestPlan.request, ← missing?_eq_none_iff]
  cases plan.missing? arguments with
  | some name => simp
  | none =>
    cases fillPath arguments plan.path.toList plan.pathBindings with
    | error fault => simp [bind, Except.bind]
    | ok path => simp [bind, Except.bind, pure, Except.pure, eq_comm]

section

variable (needed : ∀ binding ∈ plan.pathBindings, binding.internal ∈ plan.required)

include needed

/-- If the arguments of all placeholders are needed, a request is made if the needed ones are given. -/
theorem exists_request_iff :
    (∃ request, plan.request arguments = .ok request) ↔
      ∀ name ∈ plan.required, (present? arguments name).isSome = true := by
  constructor
  · rintro ⟨request, made⟩
    exact (request_eq_ok_iff.mp made).1
  · intro given
    have filled (path : List Char) : ∃ result, fillPath arguments path plan.pathBindings = .ok result :=
      ⟨_, fillPath_eq_ok_iff.mpr ⟨fun binding member => given _ (needed binding member), rfl⟩⟩
    obtain ⟨path, found⟩ := filled plan.path.toList
    exact ⟨_, request_eq_ok_iff.mpr ⟨given, path, found, rfl⟩⟩

theorem request_eq_error {fault : RequestFault} (failed : plan.request arguments = .error fault) :
    ∃ name, plan.missing? arguments = some name ∧ fault = .missingParameter name := by
  cases missing : plan.missing? arguments with
  | none =>
    obtain ⟨request, made⟩ := (exists_request_iff needed).mpr (missing?_eq_none_iff.mp missing)
    cases made.symm.trans failed
  | some name =>
    rw [RequestPlan.request, missing] at failed
    exact ⟨name, rfl, (Except.error.inj failed).symm⟩

end

/-! ### Other arguments -/

theorem fillPath_congr {path : List Char} {bindings : List Binding}
    (same : ∀ binding ∈ bindings,
      present? other binding.internal = present? arguments binding.internal) :
    fillPath other path bindings = fillPath arguments path bindings := by
  induction bindings generalizing path with
  | nil => rfl
  | cons first rest inductionHypothesis =>
    rw [List.forall_mem_cons] at same
    rw [fillPath, fillPath, same.1]
    cases present? arguments first.internal with
    | none => rfl
    | some value => exact inductionHypothesis same.2

theorem presentBindings_congr {bindings : List Binding}
    (same : ∀ binding ∈ bindings,
      present? other binding.internal = present? arguments binding.internal) :
    presentBindings other bindings = presentBindings arguments bindings := by
  refine List.filterMap_congr fun binding member => ?_
  rw [same binding member]

theorem payload_congr {body : BodyShape}
    (same : ∀ name ∈ body.parameters, present? other name = present? arguments name) :
    payload other body = payload arguments body := by
  have fields {bindings : List Binding}
      (inside : ∀ name ∈ bindings.map Binding.internal, name ∈ body.parameters) :
      fieldsOf other bindings = fieldsOf arguments bindings :=
    congrArg Members.ofList (presentBindings_congr fun binding member =>
      same _ (inside _ (List.mem_map_of_mem member)))
  cases body with
  | none => rfl
  | multipart plain files =>
    simp only [BodyShape.parameters, List.map_append] at fields
    rw [payload, payload, fields fun name => List.mem_append_left _,
      fields fun name => List.mem_append_right _]
  | form bindings => rw [payload, payload, fields fun name => id]
  | jsonObject contentType bindings => rw [payload, payload, fields fun name => id]
  | jsonArray contentType parameter => rw [payload, payload, same _ (List.mem_singleton_self _)]
  | jsonAny contentType parameter => rw [payload, payload, same _ (List.mem_singleton_self _)]
  | raw contentType parameter => rw [payload, payload, same _ (List.mem_singleton_self _)]

/-- Arguments that agree on what is given under the names of a plan make the same request. -/
theorem request_congr
    (same : ∀ name ∈ plan.required ++
        ((plan.pathBindings ++ plan.queryBindings).map Binding.internal ++ plan.body.parameters),
      present? other name = present? arguments name) :
    plan.request other = plan.request arguments := by
  simp only [List.map_append, List.forall_mem_append, List.forall_mem_map] at same
  obtain ⟨required, ⟨path, query⟩, body⟩ := same
  have missing : plan.missing? other = plan.missing? arguments :=
    List.find?_congr fun name member => congrArg Option.isNone (required name member)
  rw [RequestPlan.request, RequestPlan.request, missing, fillPath_congr path,
    presentBindings_congr query, payload_congr body]

end RequestPlan

end ApiSurface
