/-
This file traces every mark of a copied document back to where it comes from. A copy is made along walks
through the document, which go from an object to its members, from an array to its items and from a
reference to its target, and each step of a walk takes one level. A mark is either written in the document,
or it stands for a reference whose target the walk is already inside of, or the walk has used up all levels.

Merging moves marks, because the members of a composition become members of the schema, but it makes none. So
the place of a mark tells the walk that leads to it except for what merging leaves out.
-/

import ApiSurface.Proofs.OpenApi.Copies
import ApiSurface.Proofs.OpenApi.MergeInvariant
import ApiSurface.Proofs.OpenApi.Reuse

namespace ApiSurface.OpenApi

open Json (Members)

/-! ### Walks -/

/-- A step into a value, or from a reference to its target. -/
inductive Step where
  /-- To the value of a member. -/
  | member (key : String)
  /-- To an item of an array. -/
  | item
  /-- To the target of a reference. -/
  | target (reference : String)

/-- A walk through a document from one value to another. A target that is on the stack, because the walk
is already inside of it, is not entered again. -/
inductive Walk (root : Json) : List String → Json → List Step → Json → Prop
  /-- No step. -/
  | here (stack : List String) (node : Json) : Walk root stack node [] node
  /-- A step to an item of an array. -/
  | item {stack : List String} {items : List Json} {item last : Json} {trail : List Step}
    (inside : item ∈ items) (further : Walk root stack item trail last) :
    Walk root stack (.array items) (.item :: trail) last
  /-- A step to the value of a member. -/
  | member {stack : List String} {members : Members} {key : String} {held last : Json} {trail : List Step}
    (inside : (key, held) ∈ members) (further : Walk root stack held trail last) :
    Walk root stack (.object members) (.member key :: trail) last
  /-- A step from a reference to its target. -/
  | target {stack : List String} {members : Members} {reference : String} {inner last : Json}
    {trail : List Step} (given : referenceOf? members = some reference)
    (followed : visit root stack reference = .follow inner)
    (further : Walk root (reference :: stack) inner trail last) :
    Walk root stack (.object members) (.target reference :: trail) last

/-- The references whose targets a walk is inside of at its end, the innermost first. -/
def entered (stack : List String) : List Step → List String
  | [] => stack
  | .target reference :: trail => entered (reference :: stack) trail
  | _ :: trail => entered stack trail

/-! ### Marks -/

/-- A value holds a mark for a cut at a place. -/
inductive Marks : Json → List Step → Json → Prop
  /-- The value is an object with the key of the mark. -/
  | here {members : Members} {mark : Json} (inside : (circularKey, mark) ∈ members) :
    Marks (.object members) [] mark
  /-- An item holds the mark. -/
  | item {items : List Json} {item mark : Json} {path : List Step} (inside : item ∈ items)
    (below : Marks item path mark) : Marks (.array items) (.item :: path) mark
  /-- The value of a member holds the mark. -/
  | member {members : Members} {key : String} {held mark : Json} {path : List Step}
    (inside : (key, held) ∈ members) (below : Marks held path mark) :
    Marks (.object members) (.member key :: path) mark

/-- What is copied at the end of a trail surfaces in the copy at a place. -/
inductive Surfaces : List Step → List Step → Prop
  /-- What is copied at the start is the copy. -/
  | nil : Surfaces [] []
  /-- A step into a value leads to the same place in the copy. -/
  | step {trail path : List Step} (step : Step) (further : Surfaces trail path) :
    Surfaces (step :: trail) (step :: path)
  /-- The copy of a target stands where the reference stood. -/
  | target {trail path : List Step} (reference : String) (further : Surfaces trail path) :
    Surfaces (.target reference :: trail) path
  /-- The members of a composition become members of the schema. -/
  | merged {trail path : List Step} {keyword : String} (composes : keyword ∈ compositionKeywords)
    (part : Surfaces trail (.member keyword :: .item :: path)) : Surfaces trail path
  /-- A type that is listed becomes the type of the schema. -/
  | typed {trail path : List Step} (listed : Surfaces trail (.member "type" :: .item :: path)) :
    Surfaces trail (.member "type" :: path)

/-- Where a mark comes from, which ends a walk that takes up to a number of levels. -/
inductive Origin (root : Json) (stack : List String) (start : Json) (levels : Nat) (trail : List Step) :
    Json → Prop
  /-- The document itself has the mark there, which is copied like any other member. -/
  | written {members : Members} {held : Json} (walk : Walk root stack start trail (.object members))
    (known : (circularKey, held) ∈ members) (position : Position) :
    Origin root stack start levels trail
      (expandNode root (entered stack trail) position (levels - (trail.length + 1)) held)
  /-- There is a reference that lies inside of its own target. -/
  | cycle {members : Members} {reference : String} (walk : Walk root stack start trail (.object members))
    (given : referenceOf? members = some reference) (inside : reference ∈ entered stack trail)
    (above : trail.length < levels) : Origin root stack start levels trail (.text reference)
  /-- There are no levels left; the mark names the innermost target. -/
  | depth {node : Json} (walk : Walk root stack start trail node) (deep : trail.length = levels) :
    Origin root stack start levels trail (.text ((entered stack trail).head?.getD "#"))

/-- A mark at a place of a copy has an origin that surfaces there. -/
def IsAccounted (root : Json) (stack : List String) (levels : Nat) (node : Json) (path : List Step)
    (mark : Json) : Prop :=
  ∃ trail, Surfaces trail path ∧ Origin root stack node levels trail mark

section

variable {root node below mark : Json} {stack inner : List String} {levels : Nat} {path trail : List Step}
  {members : Members} {items : List Json}

/-- A step before a walk takes one more level and leaves the origin what it is. -/
theorem Origin.step {step : Step} (origin : Origin root inner below levels trail mark)
    (walks : ∀ last, Walk root inner below trail last → Walk root stack node (step :: trail) last)
    (same : entered stack (step :: trail) = entered inner trail) :
    Origin root stack node (levels + 1) (step :: trail) mark := by
  cases origin with
  | written walk known position =>
    rw [← same, ← Nat.add_sub_add_right levels 1]
    exact .written (walks _ walk) known position
  | cycle walk given inside above =>
    exact .cycle (walks _ walk) given (same ▸ inside) (Nat.succ_lt_succ above)
  | depth walk deep =>
    rw [← same]
    exact .depth (walks _ walk) (congrArg Nat.succ deep)

theorem IsAccounted.item {item : Json} (inside : item ∈ items)
    (accounted : IsAccounted root stack levels item path mark) :
    IsAccounted root stack (levels + 1) (.array items) (.item :: path) mark := by
  obtain ⟨trail, surfaces, origin⟩ := accounted
  exact ⟨_, .step .item surfaces, origin.step (fun _ => .item inside) rfl⟩

theorem IsAccounted.member {key : String} {held : Json} (inside : (key, held) ∈ members)
    (accounted : IsAccounted root stack levels held path mark) :
    IsAccounted root stack (levels + 1) (.object members) (.member key :: path) mark := by
  obtain ⟨trail, surfaces, origin⟩ := accounted
  exact ⟨_, .step (.member key) surfaces, origin.step (fun _ => .member inside) rfl⟩

theorem IsAccounted.target {reference : String} {target : Json}
    (given : referenceOf? members = some reference) (followed : visit root stack reference = .follow target)
    (accounted : IsAccounted root (reference :: stack) levels target path mark) :
    IsAccounted root stack (levels + 1) (.object members) path mark := by
  obtain ⟨trail, surfaces, origin⟩ := accounted
  exact ⟨_, .target reference surfaces, origin.step (fun _ => .target given followed) rfl⟩

theorem not_marks_of_scalar {value : Json} (noItems : ∀ items, value ≠ .array items)
    (noMembers : ∀ members, value ≠ .object members) : ¬ Marks value path mark := by
  intro marks
  cases marks with
  | here => exact noMembers _ rfl
  | item => exact noItems _ rfl
  | member => exact noMembers _ rfl

/-- The mark for a cut holds no other mark. -/
theorem marks_circular {reference : String} (marks : Marks (circular reference) path mark) :
    path = [] ∧ mark = .text reference := by
  have noText {text : String} {path : List Step} : ¬ Marks (.text text) path mark :=
    not_marks_of_scalar nofun nofun
  unfold circular at marks
  cases marks with
  | here inside =>
    have other : circularKey ≠ "type" := by decide
    simpa [other] using inside
  | member inside further =>
    simp only [List.mem_cons, Prod.mk.injEq, List.not_mem_nil, or_false] at inside
    rcases inside with ⟨-, rfl⟩ | ⟨-, rfl⟩ <;> exact absurd further noText

theorem not_marks_unresolved {reference : String} : ¬ Marks (unresolved reference) path mark := by
  have noText {text : String} {path : List Step} : ¬ Marks (.text text) path mark :=
    not_marks_of_scalar nofun nofun
  intro marks
  unfold unresolved at marks
  cases marks with
  | here inside =>
    have other : circularKey ≠ unresolvedKey := by decide
    simp [other] at inside
  | member inside further =>
    obtain ⟨-, rfl⟩ := Prod.mk.inj (List.mem_singleton.mp inside)
    exact absurd further noText

/-- The marks of an object are those of its members. -/
theorem marks_object_iff : Marks (.object members) path mark ↔
    ∃ member ∈ members, Marks (.object [member]) path mark := by
  constructor
  · intro marks
    cases marks with
    | here inside => exact ⟨_, inside, .here List.mem_cons_self⟩
    | member inside further => exact ⟨_, inside, .member List.mem_cons_self further⟩
  · rintro ⟨member, inside, marks⟩
    cases marks with
    | here only =>
      obtain rfl := List.mem_singleton.mp only
      exact .here inside
    | member only further =>
      obtain rfl := List.mem_singleton.mp only
      exact .member inside further

end

/-! ### Merging -/

/-- A property of marks that is kept when merging moves them. -/
structure IsMovable (holds : List Step → Json → Prop) : Prop where
  /-- The members of a composition become members of the schema. -/
  merged : ∀ {keyword path mark}, keyword ∈ compositionKeywords →
    holds (.member keyword :: .item :: path) mark → holds path mark
  /-- A type that is listed becomes the type. -/
  typed : ∀ {path mark}, holds (.member "type" :: .item :: path) mark →
    holds (.member "type" :: path) mark

theorem isMovable_isAccounted {root node : Json} {stack : List String} {levels : Nat} :
    IsMovable (IsAccounted root stack levels node) where
  merged composes accounted := by
    obtain ⟨trail, surfaces, origin⟩ := accounted
    exact ⟨trail, .merged composes surfaces, origin⟩
  typed accounted := by
    obtain ⟨trail, surfaces, origin⟩ := accounted
    exact ⟨trail, .typed surfaces, origin⟩

/-- All marks of a member have a property. -/
def MarksOnly (holds : List Step → Json → Prop) (key : String) (value : Json) : Prop :=
  ∀ path mark, Marks (.object [(key, value)]) path mark → holds path mark

section

variable {holds : List Step → Json → Prop} {key : String} {value : Json}

theorem marksOnly_iff : MarksOnly holds key value ↔
    (key = circularKey → holds [] value) ∧
      ∀ path mark, Marks value path mark → holds (.member key :: path) mark := by
  constructor
  · refine fun only => ⟨?_, fun path mark below => only _ _ (.member List.mem_cons_self below)⟩
    rintro rfl
    exact only _ _ (.here List.mem_cons_self)
  · rintro ⟨top, each⟩ path mark marks
    cases marks with
    | here inside =>
      obtain ⟨rfl, rfl⟩ := Prod.mk.inj (List.mem_singleton.mp inside)
      exact top rfl
    | member inside below =>
      obtain ⟨rfl, rfl⟩ := Prod.mk.inj (List.mem_singleton.mp inside)
      exact each _ _ below

theorem obey_marksOnly_iff {members : Members} :
    Obey (MarksOnly holds) members ↔ ∀ path mark, Marks (.object members) path mark → holds path mark := by
  constructor
  · intro obey path mark marks
    obtain ⟨member, inside, there⟩ := marks_object_iff.mp marks
    exact obey member inside path mark there
  · intro each member inside path mark marks
    exact each path mark (marks_object_iff.mpr ⟨member, inside, marks⟩)

/-- Merging makes no mark. -/
theorem IsMovable.isMemberRule (movable : IsMovable holds) : IsMemberRule (MarksOnly holds) where
  nullable := marksOnly_iff.mpr
    ⟨fun same => absurd same (by decide), fun _ _ below => absurd below (not_marks_of_scalar nofun nofun)⟩
  required each := by
    refine marksOnly_iff.mpr ⟨fun same => absurd same (by decide), fun path mark marks => ?_⟩
    cases marks with
    | item inside below =>
      obtain ⟨others, only, there⟩ := each _ inside
      exact (marksOnly_iff.mp only).2 _ _ (.item there below)
  noProperties := marksOnly_iff.mpr ⟨fun same => absurd same (by decide), nofun⟩
  properties only added := by
    have laid := Obey.insertAll (obey_marksOnly_iff.mpr (marksOnly_iff.mp only).2)
      (obey_marksOnly_iff.mpr (marksOnly_iff.mp added).2)
    exact marksOnly_iff.mpr ⟨fun same => absurd same (by decide), obey_marksOnly_iff.mp laid⟩
  type only inside := marksOnly_iff.mpr ⟨fun same => absurd same (by decide), fun _ _ below =>
    movable.typed ((marksOnly_iff.mp only).2 _ _ (.item inside below))⟩
  part composes only inside there := fun _ _ marks => movable.merged composes
    ((marksOnly_iff.mp only).2 _ _ (.item inside (marks_object_iff.mpr ⟨_, there, marks⟩)))

end

/-! ### Copies -/

section

variable {root : Json} {stack : List String} {position : Position} {levels : Nat}

/-- The marks of copied members are accounted for if those of each copy are. -/
theorem obey_copiedMembers {members part : Members} (subset : ∀ member ∈ part, member ∈ members)
    (each : ∀ member ∈ part, ∀ path mark,
      Marks (expandNode root stack (position.ofChild member.1) levels member.2) path mark →
        IsAccounted root stack levels member.2 path mark) :
    Obey (MarksOnly (IsAccounted root stack (levels + 1) (.object members)))
      (copiedMembers root stack position levels part) := by
  intro copy inside
  obtain ⟨⟨key, held⟩, there, rfl⟩ := List.mem_map.mp inside
  refine marksOnly_iff.mpr ⟨fun same => ?_, fun path mark marks => ?_⟩
  · rw [show key = circularKey from same] at there
    exact ⟨[], .nil, .written (.here _ _) (subset _ there) _⟩
  · exact .member (subset _ there) (each _ there path mark marks)

/-- Every mark of a copy is accounted for. -/
theorem isAccounted_of_marks {node mark : Json} {path : List Step}
    (marks : Marks (expandNode root stack position levels node) path mark) :
    IsAccounted root stack levels node path mark := by
  induction levels generalizing stack position node path mark with
  | zero =>
    obtain ⟨rfl, rfl⟩ := marks_circular marks
    exact ⟨[], .nil, .depth (.here stack node) rfl⟩
  | succ levels inductionHypothesis =>
    cases node with
    | object members =>
      have copied (part : Members) (subset : ∀ member ∈ part, member ∈ members) :
          Obey (MarksOnly (IsAccounted root stack (levels + 1) (.object members)))
            (copiedMembers root stack position levels part) :=
        obey_copiedMembers subset fun _ _ _ _ => inductionHypothesis
      cases given : referenceOf? members with
      | none =>
        have all := copied members fun _ => id
        rw [expandNode_of_none given] at marks
        dsimp only at marks
        split at marks
        · exact obey_marksOnly_iff.mp (isMovable_isAccounted.isMemberRule.isMergeInvariant.merge all) _ _ marks
        · exact obey_marksOnly_iff.mp all _ _ marks
      | some reference =>
        have target (path : List Step) (mark : Json)
            (there : Marks ((visit root stack reference).value reference
              (expandNode root (reference :: stack) position levels)) path mark) :
            IsAccounted root stack (levels + 1) (.object members) path mark := by
          cases visited : visit root stack reference with
          | external | dangling =>
            rw [visited] at there
            exact absurd there not_marks_unresolved
          | cut =>
            rw [visited] at there
            obtain ⟨rfl, rfl⟩ := marks_circular there
            exact ⟨[], .nil, .cycle (.here _ _) given (mem_of_cut visited) (Nat.succ_pos levels)⟩
          | follow inner =>
            rw [visited] at there
            exact .target given visited (inductionHypothesis there)
        rw [expandNode_of_some given] at marks
        revert marks
        -- The copy of the target takes the place of the reference, so its marks stay where they are; the
        -- members beside the reference are laid over it.
        cases made : (visit root stack reference).value reference
          (expandNode root (reference :: stack) position levels) with
        | object copies =>
          rw [made] at target
          have beside := copied (siblings members) fun _ there => (List.mem_filter.mp there).1
          exact obey_marksOnly_iff.mp ((obey_marksOnly_iff.mpr target).insertAll beside) path mark
        | _ =>
          rw [made] at target
          exact target path mark
    | array items =>
      cases marks with
      | item inside below =>
        obtain ⟨item, there, rfl⟩ := List.mem_map.mp inside
        exact .item there (inductionHypothesis below)
    | _ => exact absurd marks (not_marks_of_scalar nofun nofun)

end

end ApiSurface.OpenApi
