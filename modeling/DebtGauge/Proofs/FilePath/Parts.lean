import DebtGauge.FilePath.Normal
import Mathlib.Data.List.DropRight

/-!
# The parts of a path

Whatever its spelling, a path is absolute or not, and goes on in parts, which are names and
`..`. Of a `.` only a component is left, if it opens the path, and it has no effect on where the
path leads. Paths are joined and cut part by part.

Main definitions and results:

* `lead`, `parts` — the root, if the path starts there, and the parts of a path;
* `filter_components` — together they are the components of the path, but for a `.`;
* `lead_join`, `parts_join` — a path that is joined to another one goes on with its parts;
* `exists_parent_of_fileName?` — above a file name there is the path without it;
* `parts_ofComponents` — a path that is made of parts has these parts.
-/

namespace DebtGauge

/-! ## Pieces of a text -/

namespace Text

theorem splitOn_eq {α : Type} [DecidableEq α] (sep : α) (cs : List α) :
    splitOn sep cs = cs.splitOn sep := by
  induction cs with
  | nil => rfl
  | cons c cs ih =>
    rw [splitOn, ih, List.splitOn_cons_eq_if_modifyHead]
    by_cases hSep : c = sep
    · simp [hSep]
    · cases hRest : cs.splitOn sep with
      | nil => exact absurd hRest (List.splitOn_ne_nil sep cs)
      | cons piece rest => simp [hSep]

theorem splitOn_append_cons {α : Type} [DecidableEq α] (sep : α) (before after : List α) :
    splitOn sep (before ++ sep :: after) = splitOn sep before ++ splitOn sep after := by
  rw [splitOn_eq, splitOn_eq, splitOn_eq, List.splitOn_append_cons_self]

theorem sep_notMem_of_mem_splitOn {α : Type} [DecidableEq α] {sep : α} {cs piece : List α}
    (h : piece ∈ splitOn sep cs) : sep ∉ piece := by
  induction cs generalizing piece with
  | nil =>
    obtain rfl : piece = [] := by simpa [splitOn] using h
    simp
  | cons c cs ih =>
    unfold splitOn at h
    by_cases hSep : c = sep
    · rw [if_pos hSep] at h
      rcases List.mem_cons.mp h with rfl | h
      · simp
      · exact ih h
    · rw [if_neg hSep] at h
      cases hRest : splitOn sep cs with
      | nil => exact absurd hRest (splitOn_ne_nil sep cs)
      | cons first rest =>
        rw [hRest] at h ih
        -- the character goes to the first piece, and it is no separator
        rcases List.mem_cons.mp h with rfl | h
        · have hFirst : sep ∉ first := ih (List.mem_cons_self ..)
          simp [Ne.symm hSep, hFirst]
        · exact ih (List.mem_cons_of_mem _ h)

end Text

namespace FilePath

/-! ## Components that are parts -/

/-- A component that a piece between slashes stands for. -/
def Component.IsPart (c : Component) : Prop :=
  Component.ofPiece? c.text.toList = some c ∧ '/' ∉ c.text.toList

theorem Component.text_of_ofPiece? {piece : List Char} {c : Component}
    (h : Component.ofPiece? piece = some c) : c.text.toList = piece := by
  unfold Component.ofPiece? at h
  split at h
  case isTrue => exact absurd h (by simp)
  case isFalse =>
    split at h
    case isTrue hParent =>
      obtain rfl := Option.some.inj h
      exact hParent.symm
    case isFalse =>
      obtain rfl := Option.some.inj h
      exact String.toList_ofList

theorem Component.isPart_of_ofPiece? {piece : List Char} {c : Component}
    (h : Component.ofPiece? piece = some c) (hSlash : '/' ∉ piece) : c.IsPart := by
  have hText := Component.text_of_ofPiece? h
  exact ⟨hText.symm ▸ h, hText.symm ▸ hSlash⟩

theorem Component.ne_current_of_ofPiece? {piece : List Char} {c : Component}
    (h : Component.ofPiece? piece = some c) : c ≠ .current := by
  rintro rfl
  unfold Component.ofPiece? at h
  split at h
  · simp at h
  · split at h <;> simp at h

theorem Component.not_isPart_root : ¬ Component.root.IsPart := by
  unfold Component.IsPart
  decide

/-! ## Lead and parts -/

/-- The root, if a path starts there. -/
def lead (path : FilePath) : List Component :=
  if path.isAbsolute then [.root] else []

/-- The names and `..` of a path. -/
def parts (path : FilePath) : List Component :=
  (Text.splitOn '/' path.text.toList).filterMap Component.ofPiece?

theorem isPart_of_mem_parts {path : FilePath} {c : Component} (h : c ∈ path.parts) :
    c.IsPart := by
  obtain ⟨piece, hPiece, hPart⟩ := List.mem_filterMap.mp h
  exact Component.isPart_of_ofPiece? hPart (Text.sep_notMem_of_mem_splitOn hPiece)

theorem filter_pieces (pieces : List (List Char)) :
    (pieces.filterMap Component.ofPiece?).filter (· ≠ .current) =
      pieces.filterMap Component.ofPiece? := by
  refine List.filter_eq_self.mpr fun c hc => ?_
  obtain ⟨piece, -, hPart⟩ := List.mem_filterMap.mp hc
  exact decide_eq_true (Component.ne_current_of_ofPiece? hPart)

/-- The lead and the parts of a path are its components, but for a `.`. -/
theorem filter_components (path : FilePath) :
    path.components.filter (· ≠ .current) = path.lead ++ path.parts := by
  unfold components lead parts isAbsolute
  generalize path.text.toList = cs
  dsimp only
  rw [List.filter_append, filter_pieces]
  -- a `.` in front of the pieces is a component, and no part
  unfold Cut.ofText
  split
  · simp [Cut.leadComponent?, Text.splitOn, Component.ofPiece?]
  · simp [Cut.leadComponent?, Text.splitOn, Component.ofPiece?]
  · simp [Cut.leadComponent?, Text.splitOn, Component.ofPiece?]
  · rename_i hSlash _ _
    have hHead : cs.head? ≠ some '/' := by
      intro hHead
      obtain ⟨rest, rfl⟩ := List.head?_eq_some_iff.mp hHead
      exact hSlash rest rfl
    simp [Cut.leadComponent?, hHead]

/-! ## Joining -/

theorem parts_of_text_append {path base relative : FilePath}
    (h : path.text.toList = base.text.toList ++ '/' :: relative.text.toList) :
    path.parts = base.parts ++ relative.parts := by
  unfold parts
  rw [h, Text.splitOn_append_cons, List.filterMap_append]

theorem lead_join {base relative : FilePath} (h : relative.isAbsolute = false) :
    (base.join relative).lead = base.lead := by
  have hRelative : relative.text.toList.head? ≠ some '/' := by simpa [isAbsolute] using h
  unfold join lead
  rw [h, if_neg Bool.false_ne_true]
  cases hBase : base.text.toList with
  | nil =>
    -- nothing stands before the relative path
    simp [isAbsolute, hBase, hRelative]
  | cons c cs =>
    split <;> simp [isAbsolute, hBase]

theorem parts_join {base relative : FilePath} (h : relative.isAbsolute = false) :
    (base.join relative).parts = base.parts ++ relative.parts := by
  unfold join
  rw [h, if_neg Bool.false_ne_true]
  split
  case isFalse =>
    refine parts_of_text_append ?_
    simp
  case isTrue hEnd =>
    rcases List.eq_nil_or_concat' base.text.toList with hNil | ⟨init, last, hInit⟩
    · simp [parts, hNil, Text.splitOn, Component.ofPiece?]
    · -- the slash at the end of the base is the one between the two
      obtain rfl : last = '/' := by simpa [hInit] using hEnd
      have hBase : base.parts = (⟨String.ofList init⟩ : FilePath).parts := by
        unfold parts
        rw [hInit, Text.splitOn_append_cons, List.filterMap_append]
        simp [Text.splitOn, Component.ofPiece?]
      rw [hBase]
      refine parts_of_text_append ?_
      simp [hInit]

/-! ## Making paths of parts -/

theorem filterMap_splitOn_intercalate {pieces : List (List Char)}
    (h : ∀ piece ∈ pieces, '/' ∉ piece) :
    (Text.splitOn '/' (List.intercalate ['/'] pieces)).filterMap Component.ofPiece? =
      pieces.filterMap Component.ofPiece? := by
  by_cases hNil : pieces = []
  · subst hNil
    rfl
  · rw [Text.splitOn_eq, List.splitOn_intercalate '/' h hNil]

/-- Each part is read off its own text. -/
theorem filterMap_texts {cs : List Component} (h : ∀ c ∈ cs, c.IsPart) :
    (cs.map (·.text.toList)).filterMap Component.ofPiece? = cs := by
  rw [List.filterMap_map]
  exact (List.filterMap_congr fun c hc => (h c hc).1).trans List.filterMap_some

/-- Joined by slashes, parts can be told apart again. -/
theorem filterMap_splitOn_texts {cs : List Component} (h : ∀ c ∈ cs, c.IsPart) :
    (Text.splitOn '/' (List.intercalate ['/'] (cs.map (·.text.toList)))).filterMap
      Component.ofPiece? = cs := by
  have hSlash : ∀ piece ∈ cs.map (·.text.toList), '/' ∉ piece := by
    intro piece hPiece
    obtain ⟨c, hc, rfl⟩ := List.mem_map.mp hPiece
    exact (h c hc).2
  exact (filterMap_splitOn_intercalate hSlash).trans (filterMap_texts h)

/-- Parts joined by slashes do not start with a slash. -/
theorem head?_intercalate_ne {cs : List Component} (h : ∀ c ∈ cs, c.IsPart) :
    (List.intercalate ['/'] (cs.map (·.text.toList))).head? ≠ some '/' := by
  cases cs with
  | nil => simp
  | cons c cs =>
    obtain ⟨hPiece, hSlash⟩ := h c (List.mem_cons_self ..)
    cases hText : c.text.toList with
    | nil =>
      -- no part is empty
      rw [hText] at hPiece
      simp [Component.ofPiece?] at hPiece
    | cons first rest =>
      have hFirst : first ≠ '/' := by
        rintro rfl
        exact hSlash (hText ▸ List.mem_cons_self ..)
      cases cs <;> simpa [hText, List.intercalate_cons_cons] using hFirst

theorem parts_ofComponents {cs : List Component} (h : ∀ c ∈ cs, c.IsPart) :
    (ofComponents cs).lead = [] ∧ (ofComponents cs).parts = cs := by
  have hRelative : ofComponents cs =
      ⟨String.ofList (List.intercalate ['/'] (cs.map (·.text.toList)))⟩ := by
    unfold ofComponents
    split
    · exact absurd (h .root (List.mem_cons_self ..)) Component.not_isPart_root
    · rfl
  rw [hRelative]
  constructor
  · simp [lead, isAbsolute, head?_intercalate_ne h]
  · unfold parts
    rw [String.toList_ofList, filterMap_splitOn_texts h]

theorem parts_ofComponents_root {cs : List Component} (h : ∀ c ∈ cs, c.IsPart) :
    (ofComponents (.root :: cs)).lead = [.root] ∧ (ofComponents (.root :: cs)).parts = cs := by
  constructor
  · simp [lead, isAbsolute, ofComponents]
  · unfold parts ofComponents
    -- the piece before the first slash is empty
    rw [String.toList_ofList, ← List.nil_append ('/' :: _), Text.splitOn_append_cons,
      List.filterMap_append, filterMap_splitOn_texts h]
    rfl

/-! ## Cutting -/

theorem isPrefix_intercalate {α : Type} (sep : List α) {xs ys : List (List α)} (h : xs <+: ys) :
    List.intercalate sep xs <+: List.intercalate sep ys := by
  induction xs generalizing ys with
  | nil => exact List.nil_prefix
  | cons x xs ih =>
    obtain ⟨rest, rfl⟩ := h
    have hRest := ih (List.prefix_append xs rest)
    cases xs with
    | nil =>
      cases rest with
      | nil => exact List.prefix_refl _
      | cons y rest => simp [List.intercalate_cons_cons, List.prefix_append]
    | cons y xs =>
      rw [List.cons_append, List.cons_append, List.intercalate_cons_cons,
        List.intercalate_cons_cons]
      exact (List.prefix_append_right_inj _).mpr hRest

theorem Cut.text_ofText (cs : List Char) : (Cut.ofText cs).text = cs := by
  unfold Cut.ofText
  split <;> simp [Cut.text, Text.splitOn_eq, List.intercalate_splitOn]

/-- The first pieces of a path make a path with the same lead and the parts of these pieces. -/
theorem lead_parts_of_isPrefix (path : FilePath) {pieces : List (List Char)}
    (h : pieces <+: (Cut.ofText path.text.toList).pieces) :
    let cut := { Cut.ofText path.text.toList with pieces }
    lead ⟨String.ofList cut.text⟩ = path.lead ∧
      parts ⟨String.ofList cut.text⟩ = pieces.filterMap Component.ofPiece? := by
  unfold lead parts isAbsolute
  dsimp only
  rw [String.toList_ofList]
  generalize path.text.toList = cs at h ⊢
  unfold Cut.ofText at h ⊢
  split at h
  case h_1 rest =>
    -- a slash, and the pieces of what follows it
    have hPieces := filterMap_splitOn_intercalate fun piece hPiece =>
      Text.sep_notMem_of_mem_splitOn (h.subset hPiece)
    simp only [Cut.text, List.singleton_append]
    refine ⟨by simp, ?_⟩
    rw [← List.nil_append ('/' :: List.intercalate _ _), Text.splitOn_append_cons,
      List.filterMap_append, hPieces]
    simp [Text.splitOn, Component.ofPiece?]
  case h_2 =>
    -- a dot, and no pieces at all
    obtain rfl := List.prefix_nil.mp h
    simp [Cut.text, Text.splitOn, Component.ofPiece?]
  case h_3 rest =>
    simp only [Cut.text, List.singleton_append]
    refine ⟨by simp, ?_⟩
    -- a dot, and pieces of which the first is the empty one between the dot and the slash
    rw [Text.splitOn, if_pos rfl] at h
    cases pieces with
    | nil => simp [Text.splitOn, Component.ofPiece?]
    | cons piece pieces =>
      obtain ⟨rfl, hRest⟩ := List.cons_prefix_cons.mp h
      have hPieces := filterMap_splitOn_intercalate fun piece hPiece =>
        Text.sep_notMem_of_mem_splitOn (hRest.subset hPiece)
      cases pieces with
      | nil => simp [Text.splitOn, Component.ofPiece?]
      | cons next pieces =>
        rw [List.intercalate_cons_cons, List.nil_append, List.singleton_append,
          ← List.singleton_append (l := '/' :: _), Text.splitOn_append_cons,
          List.filterMap_append, hPieces]
        simp [Text.splitOn, Component.ofPiece?]
  case h_4 hSlash _ _ =>
    simp only [Cut.text, List.nil_append]
    have hPieces := filterMap_splitOn_intercalate fun piece hPiece =>
      Text.sep_notMem_of_mem_splitOn (h.subset hPiece)
    refine ⟨?_, hPieces⟩
    -- pieces only: the text of the first ones starts as the whole text does
    have hText : List.intercalate ['/'] pieces <+: cs := by
      have hPrefix := isPrefix_intercalate ['/'] h
      rwa [Text.splitOn_eq, List.intercalate_splitOn] at hPrefix
    have hHead : ∀ text : List Char, text <+: cs → text.head? ≠ some '/' := by
      rintro text ⟨rest, rfl⟩ hHead
      obtain ⟨tail, rfl⟩ := List.head?_eq_some_iff.mp hHead
      exact hSlash (tail ++ rest) rfl
    simp [hHead _ hText, hHead cs (List.prefix_refl _)]

theorem dropEmptyEnd_concat (pieces : List (List Char)) (piece : List Char) :
    dropEmptyEnd (pieces ++ [piece]) =
      if (Component.ofPiece? piece).isNone then dropEmptyEnd pieces else pieces ++ [piece] :=
  List.rdropWhile_concat ..

theorem isPrefix_dropEmptyEnd (pieces : List (List Char)) : dropEmptyEnd pieces <+: pieces :=
  List.rdropWhile_prefix ..

theorem filterMap_dropEmptyEnd (pieces : List (List Char)) :
    (dropEmptyEnd pieces).filterMap Component.ofPiece? =
      pieces.filterMap Component.ofPiece? := by
  induction pieces using List.reverseRecOn with
  | nil => rfl
  | append_singleton pieces piece ih =>
    rw [dropEmptyEnd_concat]
    cases hPiece : Component.ofPiece? piece with
    | none => simp [ih, hPiece]
    | some c => simp

/-- The pieces end, but for the empty ones, in the piece of the last component. -/
theorem exists_dropEmptyEnd {pieces : List (List Char)} {init : List Component} {c : Component}
    (h : pieces.filterMap Component.ofPiece? = init ++ [c]) : ∃ before last,
      dropEmptyEnd pieces = before ++ [last] ∧ before.filterMap Component.ofPiece? = init := by
  induction pieces using List.reverseRecOn with
  | nil => simp at h
  | append_singleton pieces piece ih =>
    rw [List.filterMap_append] at h
    rw [dropEmptyEnd_concat]
    cases hPiece : Component.ofPiece? piece with
    | none =>
      rw [List.filterMap_cons_none hPiece, List.filterMap_nil, List.append_nil] at h
      exact ih h
    | some d =>
      rw [List.filterMap_cons_some hPiece, List.filterMap_nil] at h
      exact ⟨pieces, piece, rfl, (List.append_inj' h rfl).1⟩

theorem parts_eq_filterMap (path : FilePath) :
    path.parts = (Cut.ofText path.text.toList).pieces.filterMap Component.ofPiece? := by
  have hWhole := (path.lead_parts_of_isPrefix (List.prefix_refl _)).2
  dsimp only at hWhole
  rwa [Cut.text_ofText, String.ofList_toList] at hWhole

/-- The components of a path are its parts, perhaps with a root or a dot before them. -/
theorem components_cases (path : FilePath) : path.components = path.parts ∨
    ∃ lead, (lead = .root ∨ lead = .current) ∧ path.components = lead :: path.parts := by
  rw [parts_eq_filterMap]
  unfold components Cut.leadComponent?
  dsimp only
  split
  · exact .inr ⟨.root, .inl rfl, rfl⟩
  · exact .inr ⟨.current, .inr rfl, rfl⟩
  · exact .inl rfl

theorem exists_parts_of_fileName? {path : FilePath} {name : String}
    (h : path.fileName? = some name) : ∃ init, path.parts = init ++ [.name name] := by
  have hLast : path.components.getLast? = some (.name name) := by
    unfold fileName? at h
    split at h
    case h_1 text hText => rw [hText, Option.some.inj h]
    case h_2 => exact absurd h (by simp)
  unfold components at hLast
  dsimp only at hLast
  rw [← parts_eq_filterMap, List.getLast?_append] at hLast
  cases hParts : path.parts.getLast? with
  | none =>
    -- the lead alone is no name
    rw [hParts, Option.none_or] at hLast
    unfold Cut.leadComponent? at hLast
    split at hLast <;> simp at hLast
  | some last =>
    rw [hParts, Option.some_or] at hLast
    exact List.getLast?_eq_some_iff.mp (hParts.trans hLast)

/-- Above a file name there is the path that consists of the parts before it. -/
theorem exists_parent_of_fileName? {path : FilePath} {name : String}
    (h : path.fileName? = some name) : ∃ above, path.parent? = some above ∧
      above.lead = path.lead ∧ path.parts = above.parts ++ [.name name] := by
  obtain ⟨init, hInit⟩ := exists_parts_of_fileName? h
  obtain ⟨before, last, hConcat, hBefore⟩ :=
    exists_dropEmptyEnd (path.parts_eq_filterMap ▸ hInit)
  have hPrefix : dropEmptyEnd before <+: (Cut.ofText path.text.toList).pieces :=
    (isPrefix_dropEmptyEnd before).trans
      (((List.prefix_append before [last]).trans (hConcat ▸ List.prefix_refl _)).trans
        (isPrefix_dropEmptyEnd _))
  obtain ⟨hLead, hParts⟩ := path.lead_parts_of_isPrefix hPrefix
  refine ⟨_, ?_, hLead, ?_⟩
  · unfold parent?
    simp [hConcat]
  · rw [hParts, filterMap_dropEmptyEnd, hBefore, hInit]

end FilePath

end DebtGauge
