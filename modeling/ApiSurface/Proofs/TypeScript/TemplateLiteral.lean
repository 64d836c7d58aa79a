/-
This file reads template literals by the rules of the language. Between two backticks stand characters
and holes. A backslash makes the character after it stand for itself or for another one, and a carriage
return, with or without a line feed, counts as a line feed. A dollar sign with an opening brace behind
it starts a hole, which ends at the closing brace.

Some literals are not read: those with an escape by number or at the end of a line, and those in whose
holes the code itself holds braces, quotation marks, slashes or backslashes. What is read is a literal.
-/

import ApiSurface.Text.Case

namespace ApiSurface.TypeScript

/-- A part of a template literal: a character of its text, or a hole with its code. -/
inductive TemplatePart where
  | character (value : Char)
  | hole (code : List Char)
  deriving DecidableEq, Repr

/-- The character that one behind a backslash stands for. -/
def escapedCharacter? (character : Char) : Option Char :=
  if Text.isDigit character || ['x', 'u', '\n', '\r', '\u2028', '\u2029'].contains character then none
  else
    let special := [('b', '\x08'), ('f', '\x0c'), ('n', '\n'), ('r', '\r'), ('t', '\t'), ('v', '\x0b')]
    some ((special.lookup character).getD character)

/-- Whether a character of code opens or closes nothing in which a closing brace could be hidden. -/
def isPlainCode (character : Char) : Bool :=
  !(['\x7b', '\x7d', '\x60', '"', '\x27', '/', '\\'].contains character)

/-- The parts up to the backtick that ends a literal, behind which nothing may follow. Inside of a hole,
`hole` is the code so far in reverse order. -/
def readParts? : (hole : Option (List Char)) → List Char → Option (List TemplatePart)
  | _, [] => none
  | some code, character :: rest =>
    if character = '\x7d' then
      if code.isEmpty then none else (readParts? none rest).map (.hole code.reverse :: ·)
    else if isPlainCode character then readParts? (some (character :: code)) rest
    else none
  | none, '\x60' :: rest => if rest.isEmpty then some [] else none
  | none, ['\\'] => none
  | none, '\\' :: character :: rest =>
    (escapedCharacter? character).bind fun value =>
      (readParts? none rest).map (.character value :: ·)
  | none, '$' :: '\x7b' :: rest => readParts? (some []) rest
  | none, '\r' :: '\n' :: rest => (readParts? none rest).map (.character '\n' :: ·)
  | none, '\r' :: rest => (readParts? none rest).map (.character '\n' :: ·)
  | none, character :: rest => (readParts? none rest).map (.character character :: ·)

/-- The parts of a text that is one template literal. -/
def readTemplate? : List Char → Option (List TemplatePart)
  | '\x60' :: rest => readParts? none rest
  | _ => none

theorem readParts?_ordinary {character : Char} (noBacktick : character ≠ '\x60')
    (noBackslash : character ≠ '\\') (noDollar : character ≠ '$') (noReturn : character ≠ '\r')
    (rest : List Char) :
    readParts? none (character :: rest) = (readParts? none rest).map (.character character :: ·) := by
  rw [readParts?]
  all_goals simp_all

theorem readParts?_dollar {rest : List Char} (noBrace : rest.head? ≠ some '\x7b') :
    readParts? none ('$' :: rest) = (readParts? none rest).map (.character '$' :: ·) := by
  cases rest with
  | nil => rfl
  | cons next others =>
    have different : next ≠ '\x7b' := fun same => noBrace (congrArg some same)
    rw [readParts?]
    all_goals simp_all

/-- A backslash makes a backslash, a backtick or a dollar sign stand for itself. -/
theorem readParts?_escaped {character : Char} (special : character ∈ ['\\', '\x60', '$'])
    (rest : List Char) :
    readParts? none ('\\' :: character :: rest) =
      (readParts? none rest).map (.character character :: ·) := by
  simp only [List.mem_cons, List.not_mem_nil, or_false] at special
  rcases special with rfl | rfl | rfl <;> rfl

theorem readParts?_code {code : List Char} (plain : ∀ character ∈ code, isPlainCode character = true)
    {before : List Char} (nonempty : before ++ code ≠ []) (rest : List Char) :
    readParts? (some before) (code ++ '\x7d' :: rest) =
      (readParts? none rest).map (.hole (before.reverse ++ code) :: ·) := by
  induction code generalizing before with
  | nil =>
    have filled : before.isEmpty = false := by simpa using nonempty
    rw [List.nil_append, readParts?, if_pos rfl, filled, List.append_nil]
    rfl
  | cons first others inductionHypothesis =>
    have firstPlain := plain first List.mem_cons_self
    have noBrace : first ≠ '\x7d' := by
      rintro rfl
      cases firstPlain
    rw [List.cons_append, readParts?, if_neg noBrace, if_pos firstPlain,
      inductionHypothesis (fun character member => plain character (List.mem_cons_of_mem _ member))
        (List.append_ne_nil_of_left_ne_nil (List.cons_ne_nil _ _) _),
      List.reverse_cons, List.append_assoc, List.singleton_append]

/-- A hole with plain code is read up to its closing brace. -/
theorem readParts?_hole {code : List Char} (plain : ∀ character ∈ code, isPlainCode character = true)
    (nonempty : code ≠ []) (rest : List Char) :
    readParts? none ('$' :: '\x7b' :: code ++ '\x7d' :: rest) =
      (readParts? none rest).map (.hole code :: ·) := by
  have filled : [] ++ code ≠ [] := nonempty
  exact readParts?_code plain filled rest

end ApiSurface.TypeScript
