/-
This file composes the texts of templates. Elements that are filled in one after the other give their
texts one after the other, so the text of a template is found by going through its elements from the
front. A list of values that was made from other things is gone through by these things instead.
-/

import ApiSurface.Template.Reader

namespace ApiSurface

namespace Template

theorem shown_text (content : String) : shown (.text content) = content.toList := rfl

/-- Elements that are filled in to a text. -/
def Fills (included : String → Json → Option (List Char)) (value : Json) (elements : List Element)
    (text : String) : Prop :=
  fillAll included value elements = some text.toList

section

variable {included : String → Json → Option (List Char)} {given : Json} {path : List String}
  {element : Element} {body rest : List Element} {name first tail : String}

theorem Fills.of_eq {text : String} (same : first = text) (filled : Fills included given rest first) :
    Fills included given rest text :=
  same ▸ filled

theorem Fills.nil : Fills included given [] "" := rfl

theorem Fills.cons (filled : element.fill included given = some first.toList)
    (others : Fills included given rest tail) :
    Fills included given (element :: rest) (first ++ tail) := by
  unfold Fills at others ⊢
  rw [fillAll, filled, others, String.toList_append]
  rfl

theorem Fills.text (others : Fills included given rest tail) :
    Fills included given (.text first :: rest) (first ++ tail) :=
  .cons (by rw [Element.fill]) others

theorem Fills.value (found : given.follow? path = some (.text first))
    (others : Fills included given rest tail) :
    Fills included given (.value path :: rest) (first ++ tail) := by
  refine .cons ?_ others
  rw [Element.fill, found, Option.map_some, shown_text]

theorem Fills.inclusion (filled : included name given = some first.toList)
    (others : Fills included given rest tail) :
    Fills included given (.inclusion name :: rest) (first ++ tail) :=
  .cons (by rw [Element.fill, filled]) others

theorem Fills.when {condition : Bool} {otherwise : List Element}
    (found : given.follow? path = some (.bool condition))
    (filled : Fills included given (if condition then body else otherwise) first)
    (others : Fills included given rest tail) :
    Fills included given (.when path body otherwise :: rest) (first ++ tail) := by
  refine .cons ?_ others
  rw [Element.fill, found, Option.any_some, isTruthy]
  cases condition <;> exact filled

/-- A body is filled in for each of the things that the values of a list were made from. -/
theorem Fills.each {Item : Type} {items : List Item} {content : Item → Json} {shown : Item → String}
    (found : given.follow? path = some (.array (items.map content)))
    (filled : ∀ item, Fills included (content item) body (shown item))
    (others : Fills included given rest tail) :
    Fills included given (.each path body none :: rest) (String.join (items.map shown) ++ tail) := by
  have texts : ((items.map content).mapM fun item => fillAll included item body) =
      some (items.map fun item => (shown item).toList) := by
    rw [List.mapM_map]
    exact (congrArg items.mapM (funext filled)).trans List.mapM_pure
  refine .cons ?_ others
  rw [String.toList_join, List.flatMap_map, List.flatMap_def]
  unfold Element.fill
  rw [found]
  cases items with
  | nil => rfl
  | cons item further => exact congrArg (Option.map List.flatten) texts

end

end Template

namespace TemplateLibrary

variable {library : TemplateLibrary} {name text : String} {template : Template} {value : Json}
  {depth : Nat}

theorem fillTo_succ (listed : library.lookup name = some template)
    (filled : Template.Fills (library.fillTo depth) value template text) :
    library.fillTo (depth + 1) name value = some text.toList := by
  rw [fillTo, listed]
  exact filled

theorem render_eq_ok (deep : library.length = depth + 1)
    (listed : library.lookup name = some template)
    (filled : Template.Fills (library.fillTo depth) value template text) :
    library.render name value = .ok text := by
  rw [render, fill?, deep, fillTo_succ listed filled, Option.map_some, String.ofList_toList]

end TemplateLibrary

end ApiSurface
