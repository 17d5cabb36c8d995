import DebtGauge.Json.Reader
import DebtGauge.Json.Writer
import Mathlib.Data.List.Basic

/-!
# Quoted texts

A text of any characters is read back from its quoted form: quotes, backslashes and control
characters from their escapes, and all other characters as they stand.

Main results:

* `readString?_escape` — the escape of one character is read as that character;
* `readString?_quoted` — a quoted text is read as the text.
-/

namespace DebtGauge.Json

variable {done rest : List Char}

/-- The characters that have an escape of their own. -/
def namedEscapes : List Char := ['"', '\\', '\x08', '\x0c', '\n', '\r', '\t']

theorem readString?_named {c : Char} (h : c ∈ namedEscapes) :
    readString? done (escape c ++ rest) = readString? (c :: done) rest := by
  simp only [namedEscapes, List.mem_cons, List.not_mem_nil, or_false] at h
  obtain rfl | rfl | rfl | rfl | rfl | rfl | rfl := h <;>
    simp [escape, readString?, escaped?]

theorem escape_of_notMem {c : Char} (h : c ∉ namedEscapes) :
    escape c = if c.toNat < 0x20 then
      ['\\', 'u', '0', '0', hexChar (c.toNat / 16), hexChar (c.toNat % 16)] else [c] := by
  rw [escape]
  all_goals
    rintro rfl
    exact h (by decide)

/-- Two zeros and the two digits of a control character are read as its code point. -/
theorem plainChar?_hexFour? : ∀ n < 0x20,
    (hexFour? '0' '0' (hexChar (n / 16)) (hexChar (n % 16))).bind plainChar? =
      some (Char.ofNat n) := by
  decide

theorem readString?_control {c : Char} (h : c ∉ namedEscapes) (hControl : c.toNat < 0x20) :
    readString? done (escape c ++ rest) = readString? (c :: done) rest := by
  -- the digits are read as a code point, and this is no half of a surrogate pair
  obtain ⟨code, hCode, hChar⟩ := Option.bind_eq_some_iff.mp (plainChar?_hexFour? _ hControl)
  rw [Char.ofNat_toNat] at hChar
  rw [escape_of_notMem h, if_pos hControl]
  show readString? done ('\\' :: 'u' :: '0' :: '0' :: hexChar (c.toNat / 16) ::
    hexChar (c.toNat % 16) :: rest) = _
  rw [readString?, hCode]
  dsimp only
  rw [hChar]

theorem readString?_plain {c : Char} (h : c ∉ namedEscapes) (hPlain : ¬ c.toNat < 0x20) :
    readString? done (escape c ++ rest) = readString? (c :: done) rest := by
  have hQuote : c ≠ '"' := by
    rintro rfl
    exact h (by decide)
  have hBackslash : c ≠ '\\' := by
    rintro rfl
    exact h (by decide)
  rw [escape_of_notMem h, if_neg hPlain, List.singleton_append, readString?]
  · simp [hPlain, hBackslash]
  -- the character starts neither the end of the text nor an escape
  · exact hQuote
  · exact fun _ _ _ _ _ hc _ => hBackslash hc
  · exact fun _ _ hc _ => hBackslash hc

/-- The escape of a character is read as that character. -/
theorem readString?_escape (c : Char) :
    readString? done (escape c ++ rest) = readString? (c :: done) rest := by
  by_cases hNamed : c ∈ namedEscapes
  · exact readString?_named hNamed
  by_cases hControl : c.toNat < 0x20
  · exact readString?_control hNamed hControl
  · exact readString?_plain hNamed hControl

theorem readString?_escapes (cs : List Char) :
    readString? done (cs.flatMap escape ++ '"' :: rest) =
      some (String.ofList (done.reverse ++ cs), rest) := by
  induction cs generalizing done with
  | nil =>
    rw [List.flatMap_nil, List.nil_append, List.append_nil, readString?]
  | cons c cs ih =>
    -- the characters read so far are kept last first
    rw [List.flatMap_cons, List.append_assoc, readString?_escape, ih, List.reverse_cons,
      List.append_assoc, List.singleton_append]

theorem quoted_append (text : String) (rest : List Char) :
    quoted text ++ rest = '"' :: (text.toList.flatMap escape ++ '"' :: rest) := by
  rw [quoted, List.cons_append, List.cons_append, List.append_assoc, List.singleton_append]

/-- A quoted text is read, behind its first quote, as the text that it was written for. -/
theorem readString?_quoted (text : String) (rest : List Char) :
    readString? [] (text.toList.flatMap escape ++ '"' :: rest) = some (text, rest) := by
  rw [readString?_escapes, List.reverse_nil, List.nil_append, String.ofList_toList]

end DebtGauge.Json
