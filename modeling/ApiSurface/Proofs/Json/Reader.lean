/-
This file proves that the indented form of a value reads back as the value. The machine takes the tokens
of a value from wherever it expects one, hands the value to whatever is open around it, and goes on with
the tokens behind it; it refuses a value only if arrays and objects are nested too deep in it, counting
those that are open already.
-/

import ApiSurface.Json.Reader
import ApiSurface.Proofs.Json.Distinct
import ApiSurface.Proofs.Json.Token

namespace ApiSurface.Json

/-! ### Tokens of a value -/

section

variable {limit : Nat}

theorem run_cons {state : Expecting} (next : Expecting) {token : Token}
    (taken : state.step limit token = some next) (rest : List Token) :
    state.run limit (token :: rest) = next.run limit rest := by
  rw [Expecting.run, taken, Option.bind_some]

theorem step_open {frames : List Frame} (room : frames.length < limit) :
    (Expecting.anyValue frames).step limit .openArray = some (.firstItem frames) ∧
      (Expecting.anyValue frames).step limit .openObject = some (.firstKey frames) :=
  ⟨if_pos room, if_pos room⟩

/-- The first token of a value is taken where an array was just opened as it is where an item must
come. -/
theorem run_firstItem (frames : List Frame) (value : Json) (rest : List Token) :
    (Expecting.firstItem frames).run limit (tokensOf value ++ rest) =
      (Expecting.anyValue (.array [] :: frames)).run limit (tokensOf value ++ rest) := by
  cases value with
  | array items => cases items <;> rfl
  | object members => rcases members with _ | ⟨⟨key, value⟩, others⟩ <;> rfl
  | _ => rfl

mutual

/-- The machine takes the tokens of a value and hands the value on. -/
theorem run_tokensOf (value : Json) (frames : List Frame) (fits : FitsUnder limit frames.length value)
    (rest : List Token) :
    (Expecting.anyValue frames).run limit (tokensOf value ++ rest) =
      (deliver value frames).run limit rest := by
  have opening := step_open fits.opened_lt
  match value with
  | .null | .bool _ | .number _ | .text _ => rfl
  | .array [] => exact run_cons _ opening.1 _
  | .array (first :: others) =>
    have items := (fitsUnder_array_iff.mp fits).2
    -- an array that was just opened may also end at once, so its first item is met in another state
    rw [tokensOf, List.cons_append, List.append_assoc, List.append_assoc, List.singleton_append,
      run_cons _ opening.1, run_firstItem,
      run_tokensOf first (.array [] :: frames) (items first List.mem_cons_self)]
    exact run_tokensOfItems others [first] frames
      (fun item member => items item (List.mem_cons_of_mem _ member)) rest
  | .object [] => exact run_cons _ opening.2 _
  | .object ((key, value) :: others) =>
    have members := (fitsUnder_object_iff.mp fits).2
    rw [tokensOf, List.cons_append, List.cons_append, List.cons_append, List.append_assoc,
      List.append_assoc, List.singleton_append, run_cons _ opening.2,
      run_cons (.separator [] key frames) rfl,
      run_cons (.anyValue (.object [] key :: frames)) rfl,
      run_tokensOf value (.object [] key :: frames) (members (key, value) List.mem_cons_self)]
    exact run_tokensOfMembers others [(key, value)] frames
      (fun member inside => members member (List.mem_cons_of_mem _ inside)) rest

/-- The tokens of further items and the end of their array. -/
theorem run_tokensOfItems (items : List Json) (before : List Json) (frames : List Frame)
    (fits : ∀ item ∈ items, FitsUnder limit (frames.length + 1) item) (rest : List Token) :
    (Expecting.itemEnd before frames).run limit (tokensOfItems items ++ .closeArray :: rest) =
      (deliver (.array (before.reverse ++ items)) frames).run limit rest := by
  match items with
  | [] =>
    rw [List.append_nil]
    rfl
  | item :: others =>
    rw [tokensOfItems, List.cons_append, List.append_assoc,
      run_cons (.anyValue (.array before :: frames)) rfl,
      run_tokensOf item (.array before :: frames) (fits item List.mem_cons_self)]
    have behind := run_tokensOfItems others (item :: before) frames
      (fun item member => fits item (List.mem_cons_of_mem _ member)) rest
    rwa [List.reverse_cons, ← List.append_cons] at behind

/-- The tokens of further members and the end of their object. -/
theorem run_tokensOfMembers (members before : List (String × Json)) (frames : List Frame)
    (fits : ∀ member ∈ members, FitsUnder limit (frames.length + 1) member.2) (rest : List Token) :
    (Expecting.memberEnd before frames).run limit (tokensOfMembers members ++ .closeObject :: rest) =
      (deliver (.object (before.reverse ++ members)) frames).run limit rest := by
  match members with
  | [] =>
    rw [List.append_nil]
    rfl
  | (key, value) :: others =>
    rw [tokensOfMembers, List.cons_append, List.cons_append, List.cons_append, List.append_assoc,
      run_cons (.nextKey before frames) rfl,
      run_cons (.separator before key frames) rfl,
      run_cons (.anyValue (.object before key :: frames)) rfl,
      run_tokensOf value (.object before key :: frames) (fits (key, value) List.mem_cons_self)]
    have behind := run_tokensOfMembers others ((key, value) :: before) frames
      (fun member inside => fits member (List.mem_cons_of_mem _ inside)) rest
    rwa [List.reverse_cons, ← List.append_cons] at behind

end

end

/-! ### Texts -/

/-- The indented form of a value reads back as the value, also with a line feed at its end. -/
theorem readWritten?_indented {value : Json} (numbers : value.HasReadableNumbers)
    (fits : FitsUnder nestingLimit 0 value) :
    readWritten? (value.indented ++ "\n") = some value := by
  have ending : tokens? ['\n'] = some [] := rfl
  have cut := tokens?_indentedChars 0 value numbers (stopsNumber_cons (by decide) []) ending
  have whole : (value.indented ++ "\n").toList = value.indentedChars 0 ++ ['\n'] := by
    rw [String.toList_append, indented, String.toList_ofList]
    rfl
  have taken := run_tokensOf value [] fits []
  rw [readWritten?, whole, cut, Option.bind_eq_bind, Option.bind_some, taken]
  rfl

/-! ### Repeated keys -/

mutual

/-- A value without repeated keys stays as it is. -/
theorem withoutRepeats_eq (value : Json) (distinct : value.HasDistinctKeys) :
    withoutRepeats value = value := by
  match value with
  | .null | .bool _ | .number _ | .text _ => rfl
  | .array items =>
    rw [withoutRepeats, itemsWithoutRepeats_eq items (hasDistinctKeys_array_iff.mp distinct)]
  | .object members =>
    obtain ⟨nodup, each⟩ := hasDistinctKeys_object_iff.mp distinct
    rw [withoutRepeats, membersWithoutRepeats_eq members each, Members.ofList_of_nodup nodup]

theorem itemsWithoutRepeats_eq (items : List Json) (distinct : ∀ item ∈ items, item.HasDistinctKeys) :
    itemsWithoutRepeats items = items := by
  match items with
  | [] => rfl
  | item :: others =>
    rw [itemsWithoutRepeats, withoutRepeats_eq item (distinct item List.mem_cons_self),
      itemsWithoutRepeats_eq others fun other member => distinct other (List.mem_cons_of_mem _ member)]

theorem membersWithoutRepeats_eq (members : List (String × Json))
    (distinct : ∀ member ∈ members, member.2.HasDistinctKeys) :
    membersWithoutRepeats members = members := by
  match members with
  | [] => rfl
  | (key, value) :: others =>
    rw [membersWithoutRepeats, withoutRepeats_eq value (distinct (key, value) List.mem_cons_self),
      membersWithoutRepeats_eq others fun other member =>
        distinct other (List.mem_cons_of_mem _ member)]

/-- Nothing that is made free of repeated keys has one. -/
theorem hasDistinctKeys_withoutRepeats (value : Json) : (withoutRepeats value).HasDistinctKeys := by
  match value with
  | .null => exact hasDistinctKeys_null
  | .bool value => exact hasDistinctKeys_bool value
  | .number value => exact hasDistinctKeys_number value
  | .text value => exact hasDistinctKeys_text value
  | .array items =>
    exact hasDistinctKeys_array_iff.mpr (hasDistinctKeys_itemsWithoutRepeats items)
  | .object members =>
    exact hasDistinctKeys_ofList (hasDistinctKeys_membersWithoutRepeats members)

theorem hasDistinctKeys_itemsWithoutRepeats (items : List Json) :
    ∀ item ∈ itemsWithoutRepeats items, item.HasDistinctKeys := by
  match items with
  | [] => exact fun _ absent => absurd absent List.not_mem_nil
  | item :: others =>
    exact List.forall_mem_cons.mpr
      ⟨hasDistinctKeys_withoutRepeats item, hasDistinctKeys_itemsWithoutRepeats others⟩

theorem hasDistinctKeys_membersWithoutRepeats (members : List (String × Json)) :
    ∀ member ∈ membersWithoutRepeats members, member.2.HasDistinctKeys := by
  match members with
  | [] => exact fun _ absent => absurd absent List.not_mem_nil
  | (key, value) :: others =>
    exact List.forall_mem_cons.mpr
      ⟨hasDistinctKeys_withoutRepeats value, hasDistinctKeys_membersWithoutRepeats others⟩

end

end ApiSurface.Json
