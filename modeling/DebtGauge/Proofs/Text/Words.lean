import DebtGauge.Text.Blank
import Mathlib.Data.List.Basic

/-!
# Words of a text

A blank character ends a word and belongs to none, so a text can be cut at any of its blanks, and
its words are those of the two parts.

Main results:

* `words_append_blank` — the words of a text that is cut at a blank;
* `words_eq_singleton` — a text without blanks is a word;
* `flatten_words` — the words hold what is not blank, in its order.
-/

namespace DebtGauge.Text

/-- The words of a text, from the word it starts with and those behind it. -/
def closeWord : List Char × List (List Char) → List (List Char)
  | (run, rest) => if run.isEmpty then rest else run :: rest

theorem words_eq_closeWord (cs : List Char) :
    words cs = closeWord (cs.foldr wordStep ([], [])) := rfl

theorem wordStep_of_blank {c : Char} (h : isBlank c = true)
    (state : List Char × List (List Char)) : wordStep c state = ([], closeWord state) := by
  obtain ⟨run, rest⟩ := state
  rw [wordStep, if_pos h]
  rfl

theorem wordStep_of_not_blank {c : Char} (h : isBlank c = false)
    (state : List Char × List (List Char)) : wordStep c state = (c :: state.1, state.2) := by
  obtain ⟨run, rest⟩ := state
  rw [wordStep, if_neg (by rw [h]; exact Bool.false_ne_true)]

theorem closeWord_append (run : List Char) (rest more : List (List Char)) :
    closeWord (run, rest ++ more) = closeWord (run, rest) ++ more := by
  cases run <;> rfl

/-- The words behind a text stay apart from those in it. -/
theorem foldr_wordStep_append (cs : List Char) (more : List (List Char)) :
    cs.foldr wordStep ([], more) =
      ((cs.foldr wordStep ([], [])).1, (cs.foldr wordStep ([], [])).2 ++ more) := by
  induction cs with
  | nil => rfl
  | cons c cs ih =>
    rw [List.foldr_cons, List.foldr_cons, ih]
    -- a blank closes the word at the front, which stays before those behind the text
    cases hBlank : isBlank c with
    | true => rw [wordStep_of_blank hBlank, wordStep_of_blank hBlank, closeWord_append]
    | false => rw [wordStep_of_not_blank hBlank, wordStep_of_not_blank hBlank]

/-- A text is cut at a blank into the words before it and those behind it. -/
theorem words_append_blank {c : Char} (h : isBlank c = true) (before after : List Char) :
    words (before ++ c :: after) = words before ++ words after := by
  rw [words_eq_closeWord, List.foldr_append, List.foldr_cons, wordStep_of_blank h,
    foldr_wordStep_append, closeWord_append]
  rfl

theorem foldr_wordStep_of_not_blank {cs : List Char} (h : ∀ c ∈ cs, isBlank c = false) :
    cs.foldr wordStep ([], []) = (cs, []) := by
  induction cs with
  | nil => rfl
  | cons c cs ih =>
    obtain ⟨hHead, hRest⟩ := List.forall_mem_cons.mp h
    rw [List.foldr_cons, ih hRest, wordStep_of_not_blank hHead]

/-- A text without blanks is one word, unless it is empty. -/
theorem words_eq_singleton {cs : List Char} (h : ∀ c ∈ cs, isBlank c = false) (hne : cs ≠ []) :
    words cs = [cs] := by
  rw [words_eq_closeWord, foldr_wordStep_of_not_blank h, closeWord,
    if_neg (by simpa using hne)]

theorem flatten_closeWord (run : List Char) (rest : List (List Char)) :
    (closeWord (run, rest)).flatten = run ++ rest.flatten := by
  cases run <;> rfl

/-- The words of a text hold its characters that are not blank, in their order. -/
theorem flatten_words (cs : List Char) : (words cs).flatten = cs.filter (!isBlank ·) := by
  rw [words_eq_closeWord, flatten_closeWord]
  induction cs with
  | nil => rfl
  | cons c cs ih =>
    rw [List.foldr_cons]
    cases hBlank : isBlank c with
    | true =>
      rw [wordStep_of_blank hBlank, List.filter_cons_of_neg (by simp [hBlank]), ← ih,
        flatten_closeWord, List.nil_append]
    | false =>
      rw [wordStep_of_not_blank hBlank, List.filter_cons_of_pos (by simp [hBlank]), ← ih,
        List.cons_append]

/-- Blanks between words do not count among the characters that are not blank. -/
theorem filter_intercalate_space (parts : List (List Char)) :
    (List.intercalate [' '] parts).filter (!isBlank ·) = parts.flatten.filter (!isBlank ·) := by
  induction parts with
  | nil => rfl
  | cons part parts ih =>
    cases parts with
    | nil => simp
    | cons next parts =>
      rw [List.intercalate_cons_cons, List.filter_append, List.filter_append, ih,
        List.filter_cons_of_neg (by decide), List.filter_nil, List.append_nil]
      exact (List.filter_append ..).symm

end DebtGauge.Text
