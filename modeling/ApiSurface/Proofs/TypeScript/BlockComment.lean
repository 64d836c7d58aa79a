/-
This file proves what the tokens of a source are not made of: the characters of a block comment. Between
the marks that open and close it the machine only looks for the closing mark, so a comment in which that
mark occurs nowhere before its end is passed over as a whole, and what comes next is read as if the
comment were not there.
-/

import ApiSurface.Proofs.Text.Occurrence
import ApiSurface.TypeScript.Token

namespace ApiSurface.TypeScript.Lexer

/-- The mark that closes a block comment. -/
def closingMark : List Char := ['*', '/']

/-- After some characters the machine is between tokens again and has made none. -/
def PassesOver (characters : List Char) : Prop :=
  ∀ (lexer : Lexer) (rest : List Char), lexer.lexing = .code →
    ∃ after : Lexer, lexer.run (characters ++ rest) = after.run rest ∧ after.lexing = .code ∧
      after.tokens = lexer.tokens

theorem PassesOver.append {first second : List Char} (left : PassesOver first)
    (right : PassesOver second) : PassesOver (first ++ second) := by
  intro lexer rest code
  obtain ⟨between, leftRun, betweenCode, leftTokens⟩ := left lexer (second ++ rest) code
  obtain ⟨after, rightRun, afterCode, rightTokens⟩ := right between rest betweenCode
  exact ⟨after, by rw [List.append_assoc, leftRun, rightRun], afterCode, rightTokens.trans leftTokens⟩

/-- Blanks between tokens are passed over. -/
theorem passesOver_of_blank {blanks : List Char}
    (each : ∀ character ∈ blanks, Text.isBlank character = true) : PassesOver blanks := by
  induction blanks with
  | nil => exact fun lexer rest code => ⟨lexer, rfl, code, rfl⟩
  | cons first others inductionHypothesis =>
    intro lexer rest code
    have space : isSpace first = true := by simp [isSpace, each first List.mem_cons_self]
    obtain ⟨after, run, afterCode, tokens⟩ := inductionHypothesis
      (fun character member => each character (List.mem_cons_of_mem _ member))
      (lexer.pass first .code) rest rfl
    refine ⟨after, ?_, afterCode, tokens⟩
    rw [List.cons_append, Lexer.run, step, code]
    simp only [takeCode, space, if_true]
    exact run

theorem step_comment {lexer : Lexer} (comment : lexer.lexing = .comment) (character : Char)
    (next : Option Char) :
    lexer.step character next =
      lexer.pass character
        (if character = '*' && next = some '/' then .commentClosing else .comment) := by
  rw [step, comment]

theorem closingMark_isPrefixOf {rest : List Char} (slash : rest.head? = some '/') :
    closingMark.isPrefixOf ('*' :: rest) = true := by
  obtain ⟨later, rfl⟩ := List.head?_eq_some_iff.mp slash
  rfl

/-- In a comment the machine goes on up to the closing mark and takes it. -/
theorem exists_run_comment {inside : List Char}
    (once : Text.occurrences closingMark (inside ++ closingMark) = 1) (lexer : Lexer)
    (rest : List Char) (comment : lexer.lexing = .comment) :
    ∃ after : Lexer, lexer.run (inside ++ closingMark ++ rest) = after.run rest ∧
      after.lexing = .code ∧ after.tokens = lexer.tokens := by
  induction inside generalizing lexer with
  | nil =>
    refine ⟨((lexer.pass '*' .commentClosing).step '/' rest.head?), ?_, rfl, rfl⟩
    show (((lexer.step '*' (some '/')).step '/' rest.head?).run rest) = _
    rw [step_comment comment]
    rfl
  | cons character others inductionHypothesis =>
    have further := Text.occurrences_pos_of_append closingMark others
    rw [List.cons_append, Text.occurrences] at once
    have noClosing : ¬ (character = '*' ∧ (others ++ closingMark ++ rest).head? = some '/') := by
      rintro ⟨rfl, next⟩
      have filled : others ++ closingMark ≠ [] := List.append_ne_nil_of_right_ne_nil _ (by decide)
      rw [List.head?_append_of_ne_nil _ filled] at next
      rw [closingMark_isPrefixOf next, if_pos rfl] at once
      omega
    have remaining : Text.occurrences closingMark (others ++ closingMark) = 1 := by omega
    obtain ⟨after, run, code, tokens⟩ :=
      inductionHypothesis remaining (lexer.pass character .comment) rfl
    refine ⟨after, ?_, code, tokens⟩
    rw [← run]
    show (lexer.step character (others ++ closingMark ++ rest).head?).run _ = _
    rw [step_comment comment]
    simp only [Bool.and_eq_true, decide_eq_true_eq, noClosing, if_false]
    rfl

/-- A block comment that holds the closing mark only at its end is passed over. -/
theorem passesOver_comment {inside : List Char}
    (once : Text.occurrences closingMark (inside ++ closingMark) = 1) :
    PassesOver ('/' :: '*' :: (inside ++ closingMark)) := by
  intro lexer rest code
  obtain ⟨after, run, afterCode, tokens⟩ := exists_run_comment once
    ((lexer.pass '/' .commentOpening).pass '*' .comment) rest rfl
  refine ⟨after, ?_, afterCode, tokens⟩
  rw [← run]
  have opened : lexer.step '/' (some '*') = lexer.pass '/' .commentOpening := by
    rw [step, code]
    rfl
  show ((lexer.step '/' (some '*')).step '*' _).run _ = _
  rw [opened]
  rfl

end ApiSurface.TypeScript.Lexer
