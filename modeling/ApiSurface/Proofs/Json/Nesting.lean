/-
This file says how deep one value sits inside of another, and when all levels of a value fit under a
limit. What a pointer leads to sits inside of the document, so whatever holds of every value of a document
holds of every value of a target. A property of every object inside of a value is told level by level.
-/

import ApiSurface.Json.Pointer
import ApiSurface.Proofs.Json.Members

namespace ApiSurface.Json

/-- One value sits a number of levels below another. -/
inductive SitsBelow : Json → Nat → Json → Prop
  /-- A value sits no level below itself. -/
  | here (value : Json) : SitsBelow value 0 value
  /-- What sits below an item of an array. -/
  | item {items : List Json} {item inner : Json} {depth : Nat} (member : item ∈ items)
    (below : SitsBelow item depth inner) : SitsBelow (.array items) (depth + 1) inner
  /-- What sits below a member of an object. -/
  | member {members : Members} {key : String} {value inner : Json} {depth : Nat}
    (member : (key, value) ∈ members) (below : SitsBelow value depth inner) :
    SitsBelow (.object members) (depth + 1) inner

theorem SitsBelow.trans {outer middle inner : Json} {first second : Nat}
    (above : SitsBelow outer first middle) (below : SitsBelow middle second inner) :
    SitsBelow outer (second + first) inner := by
  induction above with
  | here value => exact below
  | item member _ inductionHypothesis => exact .item member (inductionHypothesis below)
  | member member _ inductionHypothesis => exact .member member (inductionHypothesis below)

theorem sitsBelow_of_step? {value next : Json} {name : String} (found : value.step? name = some next) :
    SitsBelow value 1 next := by
  cases value with
  | object members => exact .member (Members.mem_of_get? found) (.here next)
  | array items =>
    obtain ⟨position, -, there⟩ := Option.bind_eq_some_iff.mp found
    exact .item (List.mem_of_getElem? there) (.here next)
  | _ => exact absurd found (Option.some_ne_none next).symm

theorem exists_sitsBelow_of_follow? {value target : Json} {names : List String}
    (found : value.follow? names = some target) : ∃ depth, SitsBelow value depth target := by
  induction names generalizing value with
  | nil =>
    obtain rfl := Option.some.inj found
    exact ⟨0, .here value⟩
  | cons name rest inductionHypothesis =>
    obtain ⟨next, stepped, further⟩ := Option.bind_eq_some_iff.mp found
    obtain ⟨depth, below⟩ := inductionHypothesis further
    exact ⟨depth + 1, (sitsBelow_of_step? stepped).trans below⟩

/-- What a pointer leads to sits inside of the value. -/
theorem exists_sitsBelow_of_pointer? {value target : Json} {pointer : String}
    (found : value.pointer? pointer = some target) : ∃ depth, SitsBelow value depth target := by
  obtain ⟨names, -, followed⟩ := Option.bind_eq_some_iff.mp found
  exact exists_sitsBelow_of_follow? followed

/-! ### Levels -/

/-- The levels of a value fit under a limit when some levels are open around it. -/
def FitsUnder (limit opened : Nat) (value : Json) : Prop :=
  ∀ depth inner, SitsBelow value depth inner → opened + depth < limit

theorem FitsUnder.opened_lt {limit opened : Nat} {value : Json} (fits : FitsUnder limit opened value) :
    opened < limit :=
  fits 0 value (.here value)

/-- A value that holds no others fits wherever there is room for one more level. -/
theorem fitsUnder_of_scalar {limit opened : Nat} {value : Json}
    (noItems : ∀ items, value ≠ .array items) (noMembers : ∀ members, value ≠ .object members)
    (room : opened < limit) : FitsUnder limit opened value := by
  intro depth inner below
  cases below with
  | here => exact room
  | item => exact absurd rfl (noItems _)
  | member => exact absurd rfl (noMembers _)

section

variable {limit opened : Nat} {items : List Json} {members : Members}

theorem fitsUnder_text_iff {text : String} : FitsUnder limit opened (.text text) ↔ opened < limit :=
  ⟨FitsUnder.opened_lt, fitsUnder_of_scalar nofun nofun⟩

theorem fitsUnder_bool_iff {value : Bool} : FitsUnder limit opened (.bool value) ↔ opened < limit :=
  ⟨FitsUnder.opened_lt, fitsUnder_of_scalar nofun nofun⟩

theorem fitsUnder_null_iff : FitsUnder limit opened .null ↔ opened < limit :=
  ⟨FitsUnder.opened_lt, fitsUnder_of_scalar nofun nofun⟩

theorem fitsUnder_array_iff : FitsUnder limit opened (.array items) ↔
    opened < limit ∧ ∀ item ∈ items, FitsUnder limit (opened + 1) item := by
  constructor
  · intro fits
    refine ⟨fits.opened_lt, fun item member depth inner below => ?_⟩
    have deeper := fits (depth + 1) inner (.item member below)
    omega
  · rintro ⟨room, each⟩ depth inner below
    cases below with
    | here => exact room
    | item member further =>
      have deeper := each _ member _ inner further
      omega

theorem fitsUnder_object_iff : FitsUnder limit opened (.object members) ↔
    opened < limit ∧ ∀ member ∈ members, FitsUnder limit (opened + 1) member.2 := by
  constructor
  · intro fits
    refine ⟨fits.opened_lt, fun member inside depth inner below => ?_⟩
    have deeper := fits (depth + 1) inner (.member inside below)
    omega
  · rintro ⟨room, each⟩ depth inner below
    cases below with
    | here => exact room
    | member inside further =>
      have deeper := each _ inside _ inner further
      omega

end

/-! ### Objects -/

/-- Every object inside of a value has a property. -/
def EachObject (holds : Members → Prop) (value : Json) : Prop :=
  ∀ depth members, SitsBelow value depth (.object members) → holds members

section

variable {holds : Members → Prop} {value : Json} {items : List Json} {members : Members}

theorem EachObject.inside {inner : Json} {depth : Nat} (each : EachObject holds value)
    (below : SitsBelow value depth inner) : EachObject holds inner :=
  fun _ members further => each _ members (below.trans further)

theorem eachObject_of_scalar (noItems : ∀ items, value ≠ .array items)
    (noMembers : ∀ members, value ≠ .object members) : EachObject holds value := by
  intro depth members below
  cases below with
  | here => exact absurd rfl (noMembers members)
  | item => exact absurd rfl (noItems _)
  | member => exact absurd rfl (noMembers _)

@[simp]
theorem eachObject_text (text : String) : EachObject holds (.text text) :=
  eachObject_of_scalar nofun nofun

@[simp]
theorem eachObject_null : EachObject holds .null :=
  eachObject_of_scalar nofun nofun

theorem eachObject_array_iff :
    EachObject holds (.array items) ↔ ∀ item ∈ items, EachObject holds item := by
  constructor
  · intro each item member
    exact each.inside (.item member (.here item))
  · intro each depth members below
    cases below with
    | item member further => exact each _ member _ members further

theorem eachObject_object_iff :
    EachObject holds (.object members) ↔
      holds members ∧ ∀ member ∈ members, EachObject holds member.2 := by
  constructor
  · intro each
    exact ⟨each 0 members (.here _), fun member inside => each.inside (.member inside (.here member.2))⟩
  · rintro ⟨top, each⟩ depth members below
    cases below with
    | here => exact top
    | member inside further => exact each _ inside _ members further

end

end ApiSurface.Json
