import DebtGauge.Proofs.Json.Numeral
import DebtGauge.Proofs.Json.Quoted
import Mathlib.Data.List.DropRight

/-!
# JSON values survive being written and read

A value that is written over several lines is read back as it was, if a machine word holds its
whole numbers, the texts of its other numbers are read back, and it is not nested too deep.

White space behind a value belongs neither to the value nor to what follows it, so that what is
left of a text is only said behind its white space.

Main definitions:

* `ReadsAs` — a text is read as a value, whatever stands behind it;
* `IsReadable` — a value whose text is read back as the value.

Main results:

* `readItems?_intercalate` — the items of a list, with commas between them;
* `readsAs_prettyChars` — a value on the front of a text;
* `read?_pretty` — a value as a whole text.
-/

namespace DebtGauge.Json

open Numeral (EndsBefore)

variable {cs rest more : List Char}

/-! ## White space -/

@[simp]
theorem skipSpace_skipSpace (cs : List Char) : skipSpace (skipSpace cs) = skipSpace cs :=
  List.dropWhile_idempotent _ _

theorem skipSpace_cons {c : Char} (h : isSpace c = false) : skipSpace (c :: cs) = c :: cs := by
  rw [skipSpace, List.dropWhile_cons, h, if_neg Bool.false_ne_true]

theorem skipSpace_append_of_ne_nil (h : skipSpace cs ≠ []) :
    skipSpace (cs ++ more) = skipSpace cs ++ more := by
  unfold skipSpace at h ⊢
  rw [List.dropWhile_append, if_neg]
  rwa [List.isEmpty_iff]

theorem skipSpace_append_of_eq_nil (h : skipSpace cs = []) :
    skipSpace (cs ++ more) = skipSpace more := by
  unfold skipSpace at h ⊢
  rw [List.dropWhile_append, if_pos]
  rw [h]
  rfl

theorem skipSpace_newLine (level : Nat) : skipSpace (newLine level) = [] := by
  rw [skipSpace, List.dropWhile_eq_nil_iff]
  intro c hc
  -- the line end, or a blank of the indentation
  obtain rfl | hBlank := List.mem_cons.mp hc
  · rfl
  · rw [List.eq_of_mem_replicate hBlank]
    rfl

theorem skipSpace_newLine_append (level : Nat) (cs : List Char) :
    skipSpace (newLine level ++ cs) = skipSpace cs :=
  skipSpace_append_of_eq_nil (skipSpace_newLine level)

theorem endsBefore_newLine (level : Nat) (cs : List Char) : EndsBefore (newLine level ++ cs) := by
  rintro _ ⟨⟩
  decide

/-- A closing bracket on a line of its own ends what stands in front of it. -/
theorem closes_newLine (close : Char) (hSpace : isSpace close = false) (level : Nat)
    (rest : List Char) : EndsBefore (newLine level ++ close :: rest) ∧
      skipSpace (newLine level ++ close :: rest) = close :: rest := by
  refine ⟨endsBefore_newLine level _, ?_⟩
  rw [skipSpace_newLine_append, skipSpace_cons hSpace]

/-! ## Texts on the front of others -/

section Front

variable {α : Type} {reader : List Char → Option (α × List Char)} {text : List Char} {value : α}

/-- The text is read as the value, whatever stands behind it that does not go on a numeral. -/
def ReadsAs (reader : List Char → Option (α × List Char)) (text : List Char) (value : α) : Prop :=
  ∀ rest, EndsBefore rest → ∃ behind, reader (skipSpace (text ++ rest)) = some (value, behind) ∧
    skipSpace behind = skipSpace rest

theorem ReadsAs.of_exact {c : Char} {cs : List Char} (hSpace : isSpace c = false)
    (h : ∀ rest, EndsBefore rest → reader (c :: cs ++ rest) = some (value, rest)) :
    ReadsAs reader (c :: cs) value := by
  intro rest hRest
  refine ⟨rest, ?_, rfl⟩
  rw [List.cons_append, skipSpace_cons hSpace]
  exact h rest hRest

theorem ReadsAs.newLine (h : ReadsAs reader text value) (level : Nat) :
    ReadsAs reader (newLine level ++ text) value := by
  intro rest hRest
  rw [List.append_assoc, skipSpace_newLine_append]
  exact h rest hRest

end Front

/-! ## Lists -/

section Lists

variable {α : Type} {reader : List Char → Option (α × List Char)} {close : Char} {done : List α}
  {steps : Nat} {value : α} {behind : List Char}

theorem readItems?_comma (hRead : reader (skipSpace cs) = some (value, behind))
    (hComma : skipSpace behind = ',' :: rest) :
    readItems? reader close done (steps + 1) cs =
      readItems? reader close (value :: done) steps rest := by
  rw [readItems?, hRead]
  dsimp only
  rw [hComma]
  rfl

theorem readItems?_close (hRead : reader (skipSpace cs) = some (value, behind))
    (hClose : skipSpace behind = close :: rest) (hNotComma : close ≠ ',') :
    readItems? reader close done (steps + 1) cs = some ((value :: done).reverse, rest) := by
  rw [readItems?, hRead]
  dsimp only
  rw [hClose]
  split
  · next hComma => exact absurd (List.cons.inj hComma).1 hNotComma
  · next hCons =>
    cases hCons
    rw [if_pos rfl]
  · next hNil => cases hNil

variable {write : α → List Char} {tail : List Char} {xs : List α}

theorem intercalate_cons_cons_append (write : α → List Char) (tail : List Char) (x y : α)
    (ys : List α) :
    EndsBefore (',' :: (List.intercalate [','] ((y :: ys).map write) ++ tail)) ∧
      List.intercalate [','] ((x :: y :: ys).map write) ++ tail =
        write x ++ ',' :: (List.intercalate [','] ((y :: ys).map write) ++ tail) := by
  constructor
  · rintro _ ⟨⟩
    decide
  · rw [List.map_cons, List.map_cons, List.intercalate_cons_cons, List.append_assoc,
      List.append_assoc]
    rfl

/-- Items with commas between them and a closing bracket behind them are read one by one. -/
theorem readItems?_intercalate (hNonempty : xs ≠ [])
    (hItems : ∀ x ∈ xs, ReadsAs reader (write x) x) (hNotComma : close ≠ ',')
    (hTail : EndsBefore tail) (hClose : skipSpace tail = close :: rest)
    (hSteps : xs.length ≤ steps) :
    readItems? reader close done steps (List.intercalate [','] (xs.map write) ++ tail) =
      some (done.reverse ++ xs, rest) := by
  induction xs generalizing done steps with
  | nil => exact absurd rfl hNonempty
  | cons x xs ih =>
    obtain ⟨steps, rfl⟩ : ∃ k, steps = k + 1 := Nat.exists_eq_add_one.mpr (by
      rw [List.length_cons] at hSteps
      omega)
    have hFirst := hItems x (List.mem_cons_self ..)
    cases xs with
    | nil =>
      -- the last item, with the closing bracket behind it
      obtain ⟨behind, hRead, hBehind⟩ := hFirst tail hTail
      rw [List.map_singleton, List.intercalate_singleton,
        readItems?_close hRead (hBehind.trans hClose) hNotComma, List.reverse_cons]
    | cons y ys =>
      -- a comma stands behind the first item, and a comma does not go on a numeral
      obtain ⟨hRest, hText⟩ := intercalate_cons_cons_append write tail x y ys
      obtain ⟨behind, hRead, hBehind⟩ := hFirst _ hRest
      rw [skipSpace_cons (by decide)] at hBehind
      have hLess : (y :: ys).length ≤ steps := Nat.le_of_succ_le_succ hSteps
      rw [hText, readItems?_comma hRead hBehind,
        ih (by simp) (fun z hz => hItems z (List.mem_cons_of_mem _ hz)) hLess, List.reverse_cons,
        List.append_assoc, List.singleton_append]

theorem readItems?_skipSpace :
    readItems? reader close done steps (skipSpace cs) = readItems? reader close done steps cs := by
  cases steps with
  | zero => rfl
  | succ steps => rw [readItems?, readItems?, skipSpace_skipSpace]

theorem readList?_close (hSpace : isSpace close = false) (limit : Nat) :
    readList? reader close limit (close :: rest) = some ([], rest) := by
  rw [readList?, skipSpace_cons hSpace]
  dsimp only
  rw [if_pos rfl]

/-- What follows the first of some items: a comma or the end of the list. -/
theorem exists_intercalate_cons (hTail : EndsBefore tail) (x : α) (xs : List α) :
    ∃ more, EndsBefore more ∧
      List.intercalate [','] ((x :: xs).map write) ++ tail = write x ++ more := by
  cases xs with
  | nil => exact ⟨tail, hTail, by rw [List.map_singleton, List.intercalate_singleton]⟩
  | cons y ys => exact ⟨_, intercalate_cons_cons_append write tail x y ys⟩

/-- A list that is not empty is read item by item, as no item starts like its closing bracket. -/
theorem readList?_intercalate (hNil : reader [] = none)
    (hStart : ∀ rest, reader (close :: rest) = none) (hNonempty : xs ≠ [])
    (hItems : ∀ x ∈ xs, ReadsAs reader (write x) x) (hNotComma : close ≠ ',')
    (hSpace : isSpace close = false) {limit : Nat} (hLimit : xs.length ≤ limit) (level : Nat)
    (rest : List Char) :
    readList? reader close limit
      (List.intercalate [','] (xs.map write) ++ (newLine level ++ close :: rest)) =
        some (xs, rest) := by
  obtain ⟨hTail, hClose⟩ := closes_newLine close hSpace level rest
  generalize newLine level ++ close :: rest = tail at hTail hClose
  have hAll : readItems? reader close [] limit (List.intercalate [','] (xs.map write) ++ tail) =
      some (xs, rest) := readItems?_intercalate hNonempty hItems hNotComma hTail hClose hLimit
  -- the first item is read, so that the text does not start with the closing bracket
  obtain ⟨x, ys, rfl⟩ := List.exists_cons_of_ne_nil hNonempty
  obtain ⟨more, hMore, hText⟩ := exists_intercalate_cons hTail x ys
  obtain ⟨behind, hRead, -⟩ := hItems x (List.mem_cons_self ..) more hMore
  rw [← hText] at hRead
  rw [← readItems?_skipSpace] at hAll
  unfold readList?
  cases hFront : skipSpace (List.intercalate [','] ((x :: ys).map write) ++ tail) with
  | nil =>
    rw [hFront, hNil] at hRead
    cases hRead
  | cons c front =>
    rw [hFront] at hRead hAll
    dsimp only
    rw [if_neg, hAll]
    rintro rfl
    rw [hStart] at hRead
    cases hRead

/-- A text that is made item by item, with commas between them. -/
theorem eq_intercalate {f : List α → List Char} (hNil : f [] = []) (hOne : ∀ x, f [x] = write x)
    (hMore : ∀ x y ys, f (x :: y :: ys) = write x ++ ',' :: f (y :: ys)) (xs : List α) :
    f xs = List.intercalate [','] (xs.map write) := by
  induction xs with
  | nil => exact hNil
  | cons x xs ih =>
    cases xs with
    | nil => rw [hOne, List.map_singleton, List.intercalate_singleton]
    | cons y ys =>
      rw [hMore, ih, List.map_cons, List.map_cons, List.map_cons, List.intercalate_cons_cons,
        List.append_assoc]
      rfl

theorem length_le_length_intercalate {texts : List (List Char)} (h : cs ∈ texts) :
    cs.length ≤ (List.intercalate [','] texts).length := by
  induction texts with
  | nil => cases h
  | cons first texts ih =>
    cases texts with
    | nil =>
      rw [List.mem_singleton.mp h, List.intercalate_singleton]
    | cons second texts =>
      rw [List.intercalate_cons_cons, List.length_append, List.length_append]
      obtain rfl | hMem := List.mem_cons.mp h
      · omega
      · exact (ih hMem).trans (by omega)

/-- With the commas, a text has as many characters as there are items, less one. -/
theorem length_le_intercalate (texts : List (List Char)) :
    texts.length ≤ (List.intercalate [','] texts).length + 1 := by
  induction texts with
  | nil => exact Nat.zero_le _
  | cons first texts ih =>
    cases texts with
    | nil => exact Nat.le_add_left ..
    | cons second texts =>
      rw [List.intercalate_cons_cons, List.length_append, List.length_append, List.length_cons]
      simp only [List.length_singleton]
      omega

end Lists

/-! ## Values -/

/-- The text of the value is read back as the value: a machine word holds its whole numbers, the
texts of its other numbers are read back, and it is nested less than `depth` deep. -/
inductive IsReadable : Nat → Json → Prop
  | null (depth : Nat) : IsReadable depth .null
  | bool (depth : Nat) (value : Bool) : IsReadable depth (.bool value)
  | nat (depth : Nat) {n : Nat} (h : n < 2 ^ 64) : IsReadable depth (.nat n)
  | real (depth : Nat) {x : Float} (h : read? (Decimal.jsonText x) = some (.real x)) :
    IsReadable depth (.real x)
  | string (depth : Nat) (text : String) : IsReadable depth (.string text)
  | array {depth : Nat} {items : List Json} (h : ∀ item ∈ items, IsReadable depth item) :
    IsReadable (depth + 1) (.array items)
  | object {depth : Nat} {fields : List (String × Json)}
    (h : ∀ field ∈ fields, IsReadable depth field.2) : IsReadable (depth + 1) (.object fields)

variable {limit depth level : Nat}

theorem prettyItems_eq (level : Nat) (items : List Json) : prettyItems level items =
    List.intercalate [','] (items.map fun item => newLine level ++ item.prettyChars level) :=
  eq_intercalate rfl (fun _ => rfl) (fun _ _ _ => rfl) items

/-- A field on a line of its own. -/
def prettyField (level : Nat) (field : String × Json) : List Char :=
  newLine level ++ (quoted field.1 ++ ':' :: ' ' :: field.2.prettyChars level)

theorem prettyFields_eq (level : Nat) (fields : List (String × Json)) :
    prettyFields level fields = List.intercalate [','] (fields.map (prettyField level)) := by
  refine eq_intercalate rfl (fun field => ?_) (fun field next rest => ?_) fields
  · rw [prettyFields, prettyField, List.append_assoc]
  · rw [prettyFields, prettyField, List.append_assoc (newLine level)]
    exact List.cons_ne_nil next rest

/-! ### Single values -/

theorem readsAs_word {word : String} {json : Json} {c : Char} {cs : List Char}
    (hWord : word.toList = c :: cs) (hSpace : isSpace c = false)
    (hReader : ∀ rest, readValue? limit depth (c :: rest) = readWord? word json (c :: rest)) :
    ReadsAs (readValue? limit depth) word.toList json := by
  rw [hWord]
  refine .of_exact hSpace fun rest _ => ?_
  rw [List.cons_append, hReader, readWord?, hWord, ← List.cons_append, if_pos]
  · rw [← String.length_toList, hWord, List.drop_left]
  · exact List.isPrefixOf_iff_prefix.mpr (List.prefix_append ..)

theorem readsAs_string (text : String) :
    ReadsAs (readValue? limit depth) (quoted text) (.string text) := by
  intro rest _
  refine ⟨rest, ?_, rfl⟩
  rw [quoted_append, skipSpace_cons (by decide), readValue?, readString?_quoted]
  rfl

theorem isSpace_of_isDigit {c : Char} (h : c.isDigit = true) : isSpace c = false := by
  rw [isSpace]
  simp only [Bool.or_eq_false_iff, decide_eq_false_iff_not]
  refine ⟨⟨⟨?_, ?_⟩, ?_⟩, ?_⟩ <;>
    rintro rfl <;>
    exact absurd h (by decide)

theorem readsAs_nat {n : Nat} (hWord : n < 2 ^ 64) :
    ReadsAs (readValue? limit depth) (Nat.toDigits 10 n) (.nat n) := by
  intro rest hRest
  obtain ⟨d, digits, hDigits⟩ := List.exists_cons_of_ne_nil (Nat.toDigits_ne_nil (n := n) (b := 10))
  have hSpace : isSpace d = false :=
    isSpace_of_isDigit (Numeral.isDigit_of_mem_toDigits (n := n) (by simp [hDigits]))
  refine ⟨rest, ?_, rfl⟩
  have hTake := Numeral.take?_toDigits n hRest
  rw [hDigits, List.cons_append] at hTake ⊢
  rw [skipSpace_cons hSpace]
  exact readValue?_of_take? hTake (Numeral.value?_ofNat hWord)

/-- The text of a number that is read back as a whole is also read back with a text behind it. -/
theorem readsAs_real {x : Float} (h : read? (Decimal.jsonText x) = some (.real x)) :
    ReadsAs (readValue? limit depth) (Decimal.jsonText x).toList (.real x) := by
  intro rest hRest
  obtain ⟨⟨json, behind⟩, hRead, hEnd⟩ := Option.bind_eq_some_iff.mp h
  dsimp only at hEnd
  -- nothing but white space was left when the text was read as a whole
  by_cases hSpace : (skipSpace behind).isEmpty = true
  · rw [if_pos hSpace] at hEnd
    cases hEnd
    obtain ⟨numeral, hTake, hValue⟩ := take?_of_readValue?_real hRead
    -- the numeral starts behind the leading white space, which is skipped as before
    have hNonempty : skipSpace (Decimal.jsonText x).toList ≠ [] := by
      intro hNil
      rw [hNil] at hTake
      cases hTake
    refine ⟨behind ++ rest, ?_, skipSpace_append_of_eq_nil (List.isEmpty_iff.mp hSpace)⟩
    rw [skipSpace_append_of_ne_nil hNonempty]
    exact readValue?_of_take? (Numeral.take?_append hTake hRest) hValue
  · rw [if_neg hSpace] at hEnd
    cases hEnd

/-! ### Arrays and objects -/

theorem readValue?_nil : readValue? limit depth [] = none := by
  rw [readValue?_of_notMem]
  · rfl
  · rintro _ ⟨⟩

theorem readValue?_bracket (rest : List Char) : readValue? limit depth (']' :: rest) = none := by
  rw [readValue?_of_notMem]
  · rfl
  · rintro _ ⟨⟩
    decide

theorem readsAs_array {items : List Json}
    (hItems : ∀ item ∈ items,
      ReadsAs (readValue? limit depth) (item.prettyChars (level + 1)) item)
    (hLimit : items.length ≤ limit) :
    ReadsAs (readValue? limit (depth + 1)) (prettyChars level (.array items)) (.array items) := by
  intro rest _
  refine ⟨rest, ?_, rfl⟩
  cases items with
  | nil =>
    rw [prettyChars, List.cons_append, skipSpace_cons (by decide), readValue?, List.singleton_append,
      readList?_close (by decide)]
    rfl
  | cons item items =>
    -- each item stands on a line of its own, the bracket on one more
    have hList := readList?_intercalate readValue?_nil readValue?_bracket
      (List.cons_ne_nil item items) (fun x hx => (hItems x hx).newLine (level + 1)) (by decide)
      (by decide) hLimit level rest
    rw [← prettyItems_eq] at hList
    rw [prettyChars, List.append_assoc, List.append_assoc, List.cons_append, List.singleton_append,
      skipSpace_cons (by decide), readValue?, hList]
    · rfl
    · exact List.cons_ne_nil item items

theorem readField?_nil (reader : List Char → Option (Json × List Char)) :
    readField? reader [] = none := rfl

theorem readField?_brace (reader : List Char → Option (Json × List Char)) (rest : List Char) :
    readField? reader ('\x7d' :: rest) = none := rfl

theorem readField?_eq {reader : List Char → Option (Json × List Char)} {body behind : List Char}
    {name : String} {json : Json} (hName : readString? [] body = some (name, ':' :: cs))
    (hValue : reader (skipSpace cs) = some (json, behind)) :
    readField? reader ('"' :: body) = some ((name, json), behind) := by
  have hColon : skipSpace (':' :: cs) = ':' :: cs := skipSpace_cons (by decide)
  simp only [readField?, Option.bind_eq_bind, Option.pure_def, Option.bind_some, hName, hColon,
    hValue]

/-- A field is read if its value is. -/
theorem readsAs_prettyField {reader : List Char → Option (Json × List Char)}
    {field : String × Json} (h : ReadsAs reader (field.2.prettyChars level) field.2) :
    ReadsAs (readField? reader) (prettyField level field) field := by
  refine ReadsAs.newLine ?_ level
  intro rest hRest
  obtain ⟨behind, hRead, hBehind⟩ := h rest hRest
  refine ⟨behind, ?_, hBehind⟩
  rw [List.append_assoc, quoted_append, skipSpace_cons (by decide)]
  -- the blank behind the colon is white space in front of the value
  exact readField?_eq (readString?_quoted field.1 _) hRead

theorem readsAs_object {fields : List (String × Json)}
    (hFields : ∀ field ∈ fields,
      ReadsAs (readValue? limit depth) (field.2.prettyChars (level + 1)) field.2)
    (hLimit : fields.length ≤ limit) :
    ReadsAs (readValue? limit (depth + 1)) (prettyChars level (.object fields))
      (.object fields) := by
  intro rest _
  refine ⟨rest, ?_, rfl⟩
  cases fields with
  | nil =>
    rw [prettyChars, List.cons_append, skipSpace_cons (by decide), readValue?, List.singleton_append,
      readList?_close (by decide)]
    rfl
  | cons field fields =>
    have hList := readList?_intercalate (readField?_nil _) (readField?_brace _)
      (List.cons_ne_nil field fields) (fun x hx => readsAs_prettyField (hFields x hx)) (by decide)
      (by decide) hLimit level rest
    rw [← prettyFields_eq] at hList
    rw [prettyChars, List.append_assoc, List.append_assoc, List.cons_append, List.singleton_append,
      skipSpace_cons (by decide), readValue?, hList]
    · rfl
    · exact List.cons_ne_nil field fields

/-! ### All values -/

theorem length_prettyItems_le (level : Nat) (items : List Json) :
    (prettyItems (level + 1) items).length + 2 ≤ (prettyChars level (.array items)).length := by
  cases items with
  | nil => exact le_rfl
  | cons item items =>
    rw [prettyChars]
    · simp only [List.length_append, List.length_cons, List.length_nil]
      omega
    · exact List.cons_ne_nil item items

theorem length_prettyFields_le (level : Nat) (fields : List (String × Json)) :
    (prettyFields (level + 1) fields).length + 2 ≤ (prettyChars level (.object fields)).length := by
  cases fields with
  | nil => exact le_rfl
  | cons field fields =>
    rw [prettyChars]
    · simp only [List.length_append, List.length_cons, List.length_nil]
      omega
    · exact List.cons_ne_nil field fields

/-- A readable value is read off the front of a text, as long as the limit for the items of a list
is not less than the length of its text.

The induction is on the value: the items of a list are shorter than the list, and there are fewer
of them than its text has characters. -/
theorem readsAs_prettyChars {json : Json} (h : IsReadable depth json) (level : Nat)
    (hLimit : (json.prettyChars level).length ≤ limit) :
    ReadsAs (readValue? limit depth) (json.prettyChars level) json := by
  induction h generalizing level with
  | null depth =>
    have hWord : ReadsAs (readValue? limit depth) "null".toList .null :=
      readsAs_word (c := 'n') rfl (by decide) fun rest => by rw [readValue?]
    exact hWord
  | bool depth value =>
    cases value with
    | true =>
      have hWord : ReadsAs (readValue? limit depth) "true".toList (.bool true) :=
        readsAs_word (c := 't') rfl (by decide) fun rest => by rw [readValue?]
      exact hWord
    | false =>
      have hWord : ReadsAs (readValue? limit depth) "false".toList (.bool false) :=
        readsAs_word (c := 'f') rfl (by decide) fun rest => by rw [readValue?]
      exact hWord
  | @nat depth n hWord =>
    have hText : prettyChars level (.nat n) = Nat.toDigits 10 n := Nat.toList_repr
    rw [hText]
    exact readsAs_nat hWord
  | real depth hText => exact readsAs_real hText
  | string depth text => exact readsAs_string text
  | @array depth items _ ih =>
    have hItems := length_prettyItems_le level items
    rw [prettyItems_eq] at hItems
    have hCount := length_le_intercalate
      (items.map fun item => newLine (level + 1) ++ item.prettyChars (level + 1))
    rw [List.length_map] at hCount
    refine readsAs_array (fun item hItem => ih item hItem (level + 1) ?_) (by omega)
    -- the text of an item is a part of the text of the array
    have hItemText := length_le_length_intercalate (List.mem_map_of_mem
      (f := fun item => newLine (level + 1) ++ item.prettyChars (level + 1)) hItem)
    rw [List.length_append] at hItemText
    omega
  | @object depth fields _ ih =>
    have hFields := length_prettyFields_le level fields
    rw [prettyFields_eq] at hFields
    have hCount := length_le_intercalate (fields.map (prettyField (level + 1)))
    rw [List.length_map] at hCount
    refine readsAs_object (fun field hField => ih field hField (level + 1) ?_) (by omega)
    -- the text of a field's value is a part of the text of the object
    have hFieldText := length_le_length_intercalate
      (List.mem_map_of_mem (f := prettyField (level + 1)) hField)
    simp only [prettyField, List.length_append, List.length_cons] at hFieldText
    omega

/-- A readable value is read back from its text over several lines, a line end behind it. -/
theorem read?_pretty {json : Json} (h : IsReadable depthLimit json) :
    read? (json.pretty ++ "\n") = some json := by
  have hText : (json.pretty ++ "\n").toList = json.prettyChars 0 ++ ['\n'] := by
    rw [String.toList_append, pretty, String.toList_ofList]
    rfl
  have hLimit : (json.prettyChars 0).length ≤ (json.pretty ++ "\n").length := by
    rw [← String.length_toList, hText, List.length_append]
    omega
  have hEnd : EndsBefore ['\n'] := by
    rintro _ ⟨⟩
    decide
  obtain ⟨behind, hRead, hBehind⟩ := readsAs_prettyChars h 0 hLimit ['\n'] hEnd
  have hNothing : skipSpace behind = [] := hBehind.trans (by decide)
  rw [read?, hText, hRead]
  dsimp only [Option.bind_eq_bind, Option.bind_some]
  rw [hNothing]
  rfl

end DebtGauge.Json
