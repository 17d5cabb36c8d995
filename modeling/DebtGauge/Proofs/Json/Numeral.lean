import DebtGauge.Json.Reader
import Mathlib.Algebra.Order.Ring.Nat
import Mathlib.Data.List.TakeWhile

/-!
# Numerals inside a text

A numeral ends where no further character can belong to it, so that what is read off the front of
a text does not depend on what stands behind it, as long as that cannot go on a numeral. The
digits of a whole number are read as the number that they were written for.

Main definitions:

* `Numeral.EndsBefore` — a text whose first character does not go on a numeral;
* `Numeral.ofNat` — the digits of a number, as a numeral.

Main results:

* `Numeral.take?_append` — a numeral is read in the same way with a text behind it;
* `Numeral.take?_toDigits`, `Numeral.value?_ofNat` — the digits of a number that a machine word
  holds are read as that number;
* `readValue?_of_take?`, `take?_of_readValue?_real` — numerals are read as values, and nothing
  else is read as a number with a fraction.
-/

namespace DebtGauge.Json

namespace Numeral

/-- The text does not start with a character that may go on a numeral. -/
def EndsBefore (rest : List Char) : Prop :=
  ∀ c ∈ rest.head?, c.isDigit = false ∧ c ≠ '.' ∧ c ≠ 'e' ∧ c ≠ 'E'

variable {cs rest more digits : List Char}

/-! ## What stands behind a numeral -/

theorem takeWhile_isDigit_append (hMore : EndsBefore more) :
    (cs ++ more).takeWhile Char.isDigit = cs.takeWhile Char.isDigit := by
  have hNone : more.takeWhile Char.isDigit = [] := by
    cases more with
    | nil => rfl
    | cons c more => rw [List.takeWhile_cons, (hMore c rfl).1, if_neg Bool.false_ne_true]
  rw [List.takeWhile_append, hNone, List.append_nil]
  -- whether or not all of `cs` are digits, none are added
  split_ifs with hAll
  · exact ((List.takeWhile_sublist _).eq_of_length hAll).symm
  · rfl

theorem takeDigits?_append (h : takeDigits? cs = some (digits, rest)) (hMore : EndsBefore more) :
    takeDigits? (cs ++ more) = some (digits, rest ++ more) := by
  unfold takeDigits? at h ⊢
  rw [takeWhile_isDigit_append hMore]
  by_cases hEmpty : (cs.takeWhile Char.isDigit).isEmpty
  · simp [hEmpty] at h
  · simp only [hEmpty, Bool.false_eq_true, if_false] at h ⊢
    cases h
    -- the digits are cut off the part that was there before
    have hLength : (cs.takeWhile Char.isDigit).length ≤ cs.length :=
      (List.takeWhile_sublist _).length_le
    rw [List.drop_append_of_le_length hLength]

theorem takeFraction?_of_ne (h : ∀ c ∈ cs.head?, c ≠ '.') : takeFraction? cs = some (none, cs) := by
  rw [takeFraction?]
  rintro behind rfl
  exact h '.' rfl rfl

theorem takeFraction?_append {fraction : Option (List Char)}
    (h : takeFraction? cs = some (fraction, rest)) (hMore : EndsBefore more) :
    takeFraction? (cs ++ more) = some (fraction, rest ++ more) := by
  cases cs with
  | nil =>
    cases h
    exact takeFraction?_of_ne fun c hc => (hMore c hc).2.1
  | cons c cs =>
    by_cases hPoint : c = '.'
    · subst hPoint
      obtain ⟨⟨digits, behind⟩, hDigits, hResult⟩ := Option.map_eq_some_iff.mp h
      cases hResult
      show (takeDigits? (cs ++ more)).map _ = _
      rw [takeDigits?_append hDigits hMore]
      rfl
    · have hHead : ∀ d ∈ (c :: cs).head?, d ≠ '.' := by simpa using hPoint
      rw [takeFraction?_of_ne hHead] at h
      cases h
      exact takeFraction?_of_ne hHead

theorem takeSign_of_ne (h : ∀ c ∈ cs.head?, c ≠ '-' ∧ c ≠ '+') :
    Decimal.takeSign cs = (false, cs) := by
  rw [Decimal.takeSign]
  · rintro behind rfl
    exact (h '-' rfl).1 rfl
  · rintro behind rfl
    exact (h '+' rfl).2 rfl

theorem takeSign_append (hNonempty : cs ≠ []) : Decimal.takeSign (cs ++ more) =
    ((Decimal.takeSign cs).1, (Decimal.takeSign cs).2 ++ more) := by
  cases cs with
  | nil => exact absurd rfl hNonempty
  | cons c cs =>
    by_cases hMinus : c = '-'
    · subst hMinus
      rfl
    by_cases hPlus : c = '+'
    · subst hPlus
      rfl
    have hHead : ∀ d ∈ (c :: cs).head?, d ≠ '-' ∧ d ≠ '+' := by simpa using ⟨hMinus, hPlus⟩
    rw [takeSign_of_ne hHead]
    exact takeSign_of_ne hHead

/-- Behind the mark of an exponent stand a sign, if any, and digits. -/
theorem takeExponent?_mark {mark : Char} (h : mark = 'e' ∨ mark = 'E') :
    takeExponent? (mark :: cs) = (takeDigits? (Decimal.takeSign cs).2).map
      fun found => (some ((Decimal.takeSign cs).1, found.1), found.2) := by
  rw [takeExponent?, if_pos h]

theorem takeExponent?_of_ne (h : ∀ c ∈ cs.head?, c ≠ 'e' ∧ c ≠ 'E') :
    takeExponent? cs = some (none, cs) := by
  cases cs with
  | nil => rfl
  | cons c cs =>
    rw [takeExponent?, if_neg]
    exact not_or.mpr (h c rfl)

theorem takeExponent?_append {exponent : Option (Bool × List Char)}
    (h : takeExponent? cs = some (exponent, rest)) (hMore : EndsBefore more) :
    takeExponent? (cs ++ more) = some (exponent, rest ++ more) := by
  cases cs with
  | nil =>
    cases h
    exact takeExponent?_of_ne fun c hc => (hMore c hc).2.2
  | cons mark cs =>
    by_cases hMark : mark = 'e' ∨ mark = 'E'
    · rw [takeExponent?_mark hMark] at h
      obtain ⟨⟨digits, behind⟩, hDigits, hResult⟩ := Option.map_eq_some_iff.mp h
      cases hResult
      -- there is a digit, so that the sign is read off what stands there already
      have hNonempty : cs ≠ [] := by
        rintro rfl
        cases hDigits
      rw [List.cons_append, takeExponent?_mark hMark, takeSign_append hNonempty,
        takeDigits?_append hDigits hMore]
      rfl
    · have hHead : ∀ d ∈ (mark :: cs).head?, d ≠ 'e' ∧ d ≠ 'E' := by simpa using not_or.mp hMark
      rw [takeExponent?_of_ne hHead] at h
      cases h
      exact takeExponent?_of_ne hHead

/-- What follows the sign of a numeral. -/
def takeUnsigned? (negative : Bool) (cs : List Char) : Option (Numeral × List Char) := do
  let (whole, rest) ← takeDigits? cs
  if whole.head? = some '0' ∧ 1 < whole.length then none
  let (fraction, rest) ← takeFraction? rest
  let (exponent, rest) ← takeExponent? rest
  return (⟨negative, whole, fraction, exponent⟩, rest)

theorem take?_minus (cs : List Char) : take? ('-' :: cs) = takeUnsigned? true cs := rfl

theorem take?_of_ne (h : ∀ c ∈ cs.head?, c ≠ '-') : take? cs = takeUnsigned? false cs := by
  cases cs with
  | nil => rfl
  | cons c cs =>
    have hHead : c ≠ '-' := h c rfl
    unfold take?
    split
    · next hSplit =>
      split at hSplit
      · next hMinus => exact absurd (List.cons.inj hMinus).1 hHead
      · cases hSplit
        rfl

theorem takeUnsigned?_append {negative : Bool} {numeral : Numeral}
    (h : takeUnsigned? negative cs = some (numeral, rest)) (hMore : EndsBefore more) :
    takeUnsigned? negative (cs ++ more) = some (numeral, rest ++ more) := by
  -- the three parts one after the other, each with what was left behind it
  obtain ⟨⟨whole, behindWhole⟩, hWhole, h⟩ := Option.bind_eq_some_iff.mp h
  dsimp only at h
  by_cases hZero : whole.head? = some '0' ∧ 1 < whole.length
  · rw [if_pos hZero] at h
    cases h
  rw [if_neg hZero] at h
  obtain ⟨⟨fraction, behindFraction⟩, hFraction, h⟩ := Option.bind_eq_some_iff.mp h
  obtain ⟨⟨exponent, behindExponent⟩, hExponent, h⟩ := Option.bind_eq_some_iff.mp h
  cases h
  unfold takeUnsigned?
  rw [takeDigits?_append hWhole hMore, Option.bind_eq_bind, Option.bind_some]
  dsimp only
  rw [if_neg hZero, takeFraction?_append hFraction hMore]
  show (takeExponent? (behindFraction ++ more)).bind _ = _
  rw [takeExponent?_append hExponent hMore]
  rfl

/-- A numeral is read in the same way with a text behind it that does not go on it. -/
theorem take?_append {numeral : Numeral} (h : take? cs = some (numeral, rest))
    (hMore : EndsBefore more) : take? (cs ++ more) = some (numeral, rest ++ more) := by
  cases cs with
  | nil => cases h
  | cons c cs =>
    by_cases hMinus : c = '-'
    · subst hMinus
      rw [take?_minus] at h
      rw [List.cons_append, take?_minus]
      exact takeUnsigned?_append h hMore
    · have hHead : ∀ d ∈ (c :: cs).head?, d ≠ '-' := by simpa using hMinus
      rw [take?_of_ne hHead] at h
      have hLonger : take? (c :: cs ++ more) = takeUnsigned? false (c :: cs ++ more) :=
        take?_of_ne hHead
      rw [hLonger, takeUnsigned?_append h hMore]

/-! ## Whole numbers -/

theorem head?_toDigits_ne_zero {n : Nat} (hPos : 0 < n) : (Nat.toDigits 10 n).head? ≠ some '0' := by
  induction n using Nat.strongRecOn with
  | ind n ih =>
    by_cases hOne : n < 10
    · rw [Nat.toDigits_of_lt_base hOne]
      have hDigits : ∀ d < 10, 0 < d → [d.digitChar].head? ≠ some '0' := by decide
      exact hDigits n hOne hPos
    · -- the first digit is that of a tenth
      have hTenth := ih (n / 10) (by omega) (by omega)
      obtain ⟨d, digits, hDigits⟩ :=
        List.exists_cons_of_ne_nil (Nat.toDigits_ne_nil (n := n / 10) (b := 10))
      rw [hDigits] at hTenth
      rw [Nat.toDigits_of_base_le (by decide) (not_lt.mp hOne), hDigits]
      exact hTenth

theorem isDigit_of_mem_toDigits {n : Nat} {c : Char} (h : c ∈ Nat.toDigits 10 n) :
    c.isDigit = true :=
  Nat.isDigit_of_mem_toDigits (by decide) (by decide) h

/-- The digits of a number, as a numeral. -/
def ofNat (n : Nat) : Numeral := ⟨false, Nat.toDigits 10 n, none, none⟩

theorem take?_toDigits (n : Nat) (hMore : EndsBefore more) :
    take? (Nat.toDigits 10 n ++ more) = some (ofNat n, more) := by
  have hAll : (Nat.toDigits 10 n).takeWhile Char.isDigit = Nat.toDigits 10 n :=
    List.takeWhile_eq_self_iff.mpr fun c hc => isDigit_of_mem_toDigits hc
  have hDigits : takeDigits? (Nat.toDigits 10 n) = some (Nat.toDigits 10 n, []) := by
    rw [takeDigits?, hAll, List.drop_length, if_neg]
    rw [List.isEmpty_iff]
    exact Nat.toDigits_ne_nil
  -- a zero in front is refused, but no number is written with one unless it is zero
  have hZero : ¬ ((Nat.toDigits 10 n).head? = some '0' ∧ 1 < (Nat.toDigits 10 n).length) := by
    rintro ⟨hHead, hLong⟩
    obtain rfl | hPos := Nat.eq_zero_or_pos n
    · exact absurd hLong (by decide)
    · exact head?_toDigits_ne_zero hPos hHead
  have hUnsigned : takeUnsigned? false (Nat.toDigits 10 n) = some (ofNat n, []) := by
    rw [takeUnsigned?, hDigits, Option.bind_eq_bind, Option.bind_some]
    dsimp only
    rw [if_neg hZero]
    rfl
  have hHead : ∀ c ∈ (Nat.toDigits 10 n).head?, c ≠ '-' := by
    rintro c hc rfl
    exact absurd (isDigit_of_mem_toDigits (List.mem_of_mem_head? hc)) (by decide)
  have hTake : take? (Nat.toDigits 10 n) = some (ofNat n, []) := (take?_of_ne hHead).trans hUnsigned
  exact take?_append hTake hMore

theorem digitsValue_toDigits (n : Nat) : Decimal.digitsValue (Nat.toDigits 10 n) = n :=
  Nat.ofDigitChars_ten_toDigits

/-- The digits of a number that a machine word holds stand for that number. -/
theorem value?_ofNat {n : Nat} (hWord : n < 2 ^ 64) : (ofNat n).value? = some (.nat n) := by
  have hLimit : n ≤ significandLimit := by
    show n ≤ 2 ^ 64 - 1
    omega
  have hInteger : (ofNat n).integer? = some (n : Int) := by
    rw [integer?, ofNat, digitsValue_toDigits]
    simp [hLimit]
  rw [value?, hInteger]
  rfl

end Numeral

/-! ## Numerals as values -/

variable {limit depth : Nat} {cs rest : List Char}

theorem readWord?_eq_some {word : String} {json found : Json}
    (h : readWord? word json cs = some (found, rest)) : found = json := by
  unfold readWord? at h
  split at h
  · cases h
    rfl
  · cases h

/-- A text that starts with a numeral starts with a hyphen or a digit. -/
theorem Numeral.head_of_take? {c : Char} {numeral : Numeral}
    (h : Numeral.take? (c :: cs) = some (numeral, rest)) : c = '-' ∨ c.isDigit = true := by
  by_cases hMinus : c = '-'
  · exact .inl hMinus
  · have hHead : ∀ d ∈ (c :: cs).head?, d ≠ '-' := by simpa using hMinus
    rw [take?_of_ne hHead] at h
    obtain ⟨⟨whole, behind⟩, hWhole, -⟩ := Option.bind_eq_some_iff.mp h
    unfold takeDigits? at hWhole
    by_contra hOther
    have hDigit : c.isDigit = false := by simpa using (not_or.mp hOther).2
    rw [List.takeWhile_cons, hDigit] at hWhole
    cases hWhole

/-- The characters with which the values that are no numerals start. -/
def valueMarks : List Char := ['"', 't', 'f', 'n', '[', '\x7b']

/-- A text that starts like no other value is read as a numeral. -/
theorem readValue?_of_notMem (h : ∀ c ∈ cs.head?, c ∉ valueMarks) :
    readValue? limit depth cs = (do
      let (numeral, rest) ← Numeral.take? cs
      return (← numeral.value?, rest)) := by
  have hNot (mark : Char) (hMark : mark ∈ valueMarks) (rest : List Char) : cs ≠ mark :: rest := by
    rintro rfl
    exact h mark rfl hMark
  rw [readValue?]
  · exact fun rest => hNot _ (by decide) rest
  · exact fun rest => hNot _ (by decide) rest
  · exact fun rest => hNot _ (by decide) rest
  · exact fun rest => hNot _ (by decide) rest
  · exact fun _ rest _ => hNot _ (by decide) rest
  · exact fun _ rest _ => hNot _ (by decide) rest

theorem readValue?_of_take? {numeral : Numeral} {json : Json}
    (h : Numeral.take? cs = some (numeral, rest)) (hValue : numeral.value? = some json) :
    readValue? limit depth cs = some (json, rest) := by
  have hMarks : ∀ c ∈ cs.head?, c ∉ valueMarks := by
    cases cs with
    | nil => exact fun _ hNone => nomatch hNone
    | cons c cs =>
      rintro _ ⟨⟩ hMark
      have hStarts : valueMarks.all (fun d => !(d == '-' || d.isDigit)) = true := by decide
      have hOther : ¬ c = '-' ∧ c.isDigit = false := by
        simpa using List.all_eq_true.mp hStarts c hMark
      obtain hMinus | hDigit := Numeral.head_of_take? h
      · exact hOther.1 hMinus
      · exact absurd hDigit (by simp [hOther.2])
  rw [readValue?_of_notMem hMarks, h]
  -- what is left is the value of the numeral
  show (numeral.value?.bind fun json => some (json, rest)) = _
  rw [hValue]
  rfl

/-- Nothing but a numeral is read as a number with a fraction. -/
theorem take?_of_readValue?_real {x : Float} (h : readValue? limit depth cs = some (.real x, rest)) :
    ∃ numeral, Numeral.take? cs = some (numeral, rest) ∧ numeral.value? = some (.real x) := by
  rw [readValue?.eq_def] at h
  split at h
  · -- a string
    obtain ⟨_, _, hOther⟩ := Option.map_eq_some_iff.mp h
    cases hOther
  -- the three words
  · cases readWord?_eq_some h
  · cases readWord?_eq_some h
  · cases readWord?_eq_some h
  · -- an array
    obtain ⟨_, _, hOther⟩ := Option.map_eq_some_iff.mp h
    cases hOther
  · -- an object
    obtain ⟨_, _, hOther⟩ := Option.map_eq_some_iff.mp h
    cases hOther
  · -- a numeral
    obtain ⟨⟨numeral, behind⟩, hTake, hRest⟩ := Option.bind_eq_some_iff.mp h
    obtain ⟨json, hValue, hPair⟩ := Option.bind_eq_some_iff.mp hRest
    cases hPair
    exact ⟨numeral, hTake, hValue⟩

end DebtGauge.Json
