import DebtGauge.FileTree
import DebtGauge.Proofs.FilePath.Normal

/-!
# Paths below a root

A walk joins names to its root one after the other. The paths that it makes are as absolute as
the root, they differ if the names differ, and if the root is spelled in normal form then so are
they. Seen from a working directory that is in normal form, a path without `..` is a root of
this kind, but for a slash that it may end in.

Main definitions and results:

* `FilePath.below` — the path that names lead to from a root;
* `parts_below`, `below_injective` — its parts, and that they tell the names;
* `exists_base_of_absoluteFrom?` — the ways in which a path is made absolute;
* `isAbsolute_absoluteFrom?`, `isAbsolute_normalize` — what keeps a path absolute;
* `normalize_pathOf`, `below_pathOf` — paths that consist of a root and names;
* `exists_pathOf_of_absoluteFrom?` — the roots whose paths are in normal form.
-/

namespace DebtGauge.FilePath

open FileSystem (pathOf)

variable {base relative root path : FilePath} {names : List String}

/-! ## Absolute paths -/

theorem lead_eq_root (h : path.isAbsolute = true) : path.lead = [.root] :=
  if_pos h

theorem text_ne_of_isAbsolute (h : path.isAbsolute = true) : path.text ≠ "" := by
  intro hEmpty
  rw [isAbsolute, hEmpty] at h
  exact absurd h (by decide)

theorem isAbsolute_of_text_append {front rest : String} (h : isAbsolute ⟨front⟩ = true) :
    isAbsolute ⟨front ++ rest⟩ = true := by
  unfold isAbsolute at h ⊢
  rw [decide_eq_true_eq] at h ⊢
  obtain ⟨cs, hFront⟩ := List.head?_eq_some_iff.mp h
  rw [String.toList_append, hFront]
  rfl

theorem isAbsolute_join (h : base.isAbsolute = true) : (base.join relative).isAbsolute = true := by
  unfold join
  split
  case isTrue hRelative => exact hRelative
  case isFalse =>
    split
    · exact isAbsolute_of_text_append h
    · exact isAbsolute_of_text_append (isAbsolute_of_text_append h)

theorem isAbsolute_ofComponents_root (cs : List Component) :
    (ofComponents (.root :: cs)).isAbsolute = true := by
  simp [ofComponents, isAbsolute]

/-- Folding never takes the root away. -/
theorem getLast?_foldl_fold {cs done : List Component} (h : done.getLast? = some .root) :
    (cs.foldl fold done).getLast? = some .root := by
  induction cs generalizing done with
  | nil => exact h
  | cons c cs ih =>
    refine ih ?_
    cases c with
    | current => rwa [fold_current]
    | name text =>
      rw [fold_name, List.getLast?_cons, h]
      rfl
    | root =>
      cases done with
      | nil => cases h
      | cons d done => cases d <;> simpa [fold, List.getLast?_cons_cons] using h
    | parent =>
      cases done with
      | nil => cases h
      | cons d done =>
        cases d with
        | root => exact h
        | current => simpa [fold, List.getLast?_cons_cons] using h
        | parent => simpa [fold, List.getLast?_cons_cons] using h
        | name text =>
          -- the name that is taken away was not the last one
          cases done with
          | nil => simp at h
          | cons e done => simpa [fold, List.getLast?_cons_cons] using h

theorem getLast?_normalComponents (h : path.isAbsolute = true) :
    path.normalComponents.reverse.getLast? = some .root := by
  rw [normalComponents_eq, List.reverse_reverse, lead_eq_root h]
  show (path.parts.foldl fold [.root]).getLast? = some .root
  exact getLast?_foldl_fold rfl

/-- The components of the normal form of an absolute path are a root and names. -/
theorem exists_names_of_isAbsolute (h : path.isAbsolute = true) :
    ∃ names : List String, path.normalComponents = .root :: names.map .name ∧
      ∀ name ∈ names, (Component.name name).IsPart := by
  have hLast := getLast?_normalComponents h
  have hFolded := path.folded_normalComponents
  rw [← List.reverse_reverse path.normalComponents]
  generalize path.normalComponents.reverse = done at hLast hFolded ⊢
  -- from the last component to the first
  induction hFolded with
  | parents count =>
    obtain hParent := List.eq_of_mem_replicate (List.mem_of_getLast? hLast)
    cases hParent
  | root => exact ⟨[], rfl, fun name hName => absurd hName List.not_mem_nil⟩
  | @name text done hPart hDone ih =>
    have hRest : done.getLast? = some .root := by
      cases done with
      | nil => simp at hLast
      | cons d done => rwa [List.getLast?_cons_cons] at hLast
    obtain ⟨names, hNames, hParts⟩ := ih hRest
    refine ⟨names ++ [text], ?_, ?_⟩
    · rw [List.reverse_cons, hNames]
      simp
    · simpa [or_imp, forall_and] using ⟨hParts, hPart⟩

theorem normalize_eq_pathOf (h : path.isAbsolute = true) :
    ∃ names, path.normalize = pathOf names ∧ ∀ name ∈ names, (Component.name name).IsPart := by
  obtain ⟨names, hNames, hParts⟩ := exists_names_of_isAbsolute h
  refine ⟨names, ?_, hParts⟩
  rw [normalize, hNames]
  rfl

theorem isAbsolute_pathOf (names : List String) : (pathOf names).isAbsolute = true :=
  isAbsolute_ofComponents_root _

theorem isAbsolute_normalize (h : path.isAbsolute = true) : path.normalize.isAbsolute = true := by
  obtain ⟨names, hNames, -⟩ := normalize_eq_pathOf h
  rw [hNames]
  exact isAbsolute_pathOf names

theorem isAbsolute_foldl_join {cs : List Component} (h : base.isAbsolute = true) :
    (cs.foldl (fun dir component => dir.join ⟨component.text⟩) base).isAbsolute = true := by
  induction cs generalizing base with
  | nil => exact h
  | cons c cs ih => exact ih (isAbsolute_join h)

/-- A path that is made absolute gives a base, and behind it the slash that the path ends in. The
base is the path itself if it has a root of either kind, and is joined part by part to the working
directory otherwise. -/
theorem exists_base_of_absoluteFrom? {workingDirectory : FilePath}
    (h : path.absoluteFrom? workingDirectory = some root) :
    ∃ base : FilePath, (root = base ∨ root = base.join ⟨""⟩) ∧
      ((path.hasDoubleRoot = true ∧
          base = ⟨"/" ++ (ofComponents (path.lead ++ path.parts)).text⟩) ∨
        (path.hasDoubleRoot = false ∧ path.isAbsolute = true ∧
          base = ofComponents (.root :: path.parts)) ∨
        (path.hasDoubleRoot = false ∧ path.isAbsolute = false ∧
          base = path.parts.foldl (fun dir component => dir.join ⟨component.text⟩)
            workingDirectory)) := by
  unfold absoluteFrom? at h
  rw [filter_components] at h
  dsimp only at h
  split at h
  · cases h
  · obtain rfl := Option.some.inj h
    refine ⟨_, (ite_eq_or_eq _ _ _).symm, ?_⟩
    -- two slashes come before one slash, and one slash before none
    cases hDouble : path.hasDoubleRoot with
    | true => exact .inl ⟨rfl, rfl⟩
    | false =>
      rw [if_neg Bool.false_ne_true]
      cases hAbsolute : path.isAbsolute with
      | true =>
        rw [if_pos rfl, lead_eq_root hAbsolute]
        exact .inr (.inl ⟨rfl, rfl, rfl⟩)
      | false =>
        have hLead : path.lead = [] := if_neg (by rw [hAbsolute]; decide)
        rw [if_neg Bool.false_ne_true, hLead]
        exact .inr (.inr ⟨rfl, rfl, rfl⟩)

/-- From an absolute working directory every path becomes absolute. -/
theorem isAbsolute_absoluteFrom? {workingDirectory : FilePath}
    (hWorking : workingDirectory.isAbsolute = true)
    (h : path.absoluteFrom? workingDirectory = some root) : root.isAbsolute = true := by
  obtain ⟨base, hRoot, hKind⟩ := exists_base_of_absoluteFrom? h
  have hBase : base.isAbsolute = true := by
    rcases hKind with ⟨-, rfl⟩ | ⟨-, -, rfl⟩ | ⟨-, -, rfl⟩
    · exact isAbsolute_of_text_append (by decide)
    · exact isAbsolute_ofComponents_root _
    · exact isAbsolute_foldl_join hWorking
  rcases hRoot with rfl | rfl
  · exact hBase
  · exact isAbsolute_join hBase

/-! ## Names below a root -/

/-- The path that names lead to from a root. -/
def below (root : FilePath) (names : List String) : FilePath :=
  names.foldl (fun path name => path.join ⟨name⟩) root

theorem isAbsolute_below (h : root.isAbsolute = true) : (root.below names).isAbsolute = true := by
  induction names generalizing root with
  | nil => exact h
  | cons name names ih => exact ih (isAbsolute_join h)

theorem isAbsolute_name {name : String} (h : (Component.name name).IsPart) :
    isAbsolute ⟨name⟩ = false := by
  rw [isAbsolute, decide_eq_false_iff_not]
  intro hHead
  exact h.2 (List.mem_of_mem_head? hHead)

theorem parts_name {name : String} (h : (Component.name name).IsPart) :
    parts ⟨name⟩ = [.name name] := by
  have hPiece : ∀ piece ∈ [name.toList], '/' ∉ piece := by
    intro piece hMem
    obtain rfl := List.mem_singleton.mp hMem
    exact h.2
  have hSplit := filterMap_splitOn_intercalate hPiece
  rw [List.intercalate_singleton] at hSplit
  rw [parts, hSplit, List.filterMap_cons, List.filterMap_nil]
  have hOfPiece : Component.ofPiece? name.toList = some (.name name) := h.1
  rw [hOfPiece]

theorem lead_below (h : ∀ name ∈ names, (Component.name name).IsPart) :
    (root.below names).lead = root.lead := by
  induction names generalizing root with
  | nil => rfl
  | cons name names ih =>
    obtain ⟨hName, hRest⟩ := List.forall_mem_cons.mp h
    show ((root.join ⟨name⟩).below names).lead = root.lead
    rw [ih hRest, lead_join (isAbsolute_name hName)]

theorem parts_below (h : ∀ name ∈ names, (Component.name name).IsPart) :
    (root.below names).parts = root.parts ++ names.map .name := by
  induction names generalizing root with
  | nil => rw [List.map_nil, List.append_nil, below, List.foldl_nil]
  | cons name names ih =>
    obtain ⟨hName, hRest⟩ := List.forall_mem_cons.mp h
    show ((root.join ⟨name⟩).below names).parts = _
    rw [ih hRest, parts_join (isAbsolute_name hName), parts_name hName, List.map_cons,
      List.append_assoc, List.singleton_append]

/-- The components of a path below a root tell the names that lead there. -/
theorem below_injective {others : List String} (h : ∀ name ∈ names, (Component.name name).IsPart)
    (hOthers : ∀ name ∈ others, (Component.name name).IsPart)
    (hSame : (root.below names).components = (root.below others).components) : names = others := by
  -- without the dots, the components are the lead, the parts of the root, and the names
  have hFilter := congrArg (List.filter (· ≠ .current)) hSame
  rw [filter_components, filter_components, lead_below h, lead_below hOthers, parts_below h,
    parts_below hOthers] at hFilter
  have hNames := List.append_cancel_left (List.append_cancel_left hFilter)
  exact List.map_injective_iff.mpr (fun _ _ hEq => Component.name.inj hEq) hNames

/-! ## Spelled in normal form -/

theorem foldl_fold_names (names : List String) (done : List Component) :
    (names.map Component.name).foldl fold done = (names.map Component.name).reverse ++ done := by
  induction names generalizing done with
  | nil => rfl
  | cons name names ih => simp [fold_name, ih]

/-- A root and names are their own normal form. -/
theorem normalize_pathOf (h : ∀ name ∈ names, (Component.name name).IsPart) :
    (pathOf names).normalize = pathOf names := by
  have hParts : ∀ c ∈ names.map Component.name, c.IsPart := by
    intro c hc
    obtain ⟨name, hName, rfl⟩ := List.mem_map.mp hc
    exact h name hName
  obtain ⟨hLead, hSame⟩ := parts_ofComponents_root hParts
  have hNormal : (pathOf names).normalComponents = .root :: names.map .name := by
    rw [normalComponents_eq, pathOf, hLead, hSame, List.foldl_append, foldl_fold_names]
    simp [fold]
  rw [normalize, hNormal]
  rfl

theorem text_pathOf (names : List String) :
    (pathOf names).text.toList = '/' :: List.intercalate ['/'] (names.map (·.toList)) := by
  simp [pathOf, ofComponents, Component.text, Function.comp_def]

theorem intercalate_concat {α : Type} (sep x : List α) {xs : List (List α)} (h : xs ≠ []) :
    List.intercalate sep (xs ++ [x]) = List.intercalate sep xs ++ (sep ++ x) := by
  induction xs with
  | nil => exact absurd rfl h
  | cons y ys ih =>
    cases ys with
    | nil => simp [List.intercalate]
    | cons z zs =>
      rw [List.cons_append, List.cons_append, List.intercalate_cons_cons, ← List.cons_append,
        ih (by simp), List.intercalate_cons_cons]
      simp

/-- A path of a root and names does not end in a slash, unless there are no names. -/
theorem getLast?_pathOf_concat {name : String} (names : List String)
    (hName : (Component.name name).IsPart) :
    (pathOf (names ++ [name])).text.toList.getLast?.all (· = '/') = false := by
  obtain ⟨hPiece, hSlash⟩ := hName
  rw [Component.text] at hPiece hSlash
  rcases List.eq_nil_or_concat' name.toList with hNil | ⟨front, last, hConcat⟩
  · rw [hNil] at hPiece
    cases hPiece
  · have hLast : last ≠ '/' := by
      rintro rfl
      rw [hConcat] at hSlash
      simp at hSlash
    -- the text ends in the name, whatever stands before it
    obtain ⟨front', hText⟩ : ∃ front', (pathOf (names ++ [name])).text.toList =
        front' ++ [last] := by
      rw [text_pathOf, List.map_append, List.map_singleton, hConcat]
      by_cases hNames : names = []
      · subst hNames
        exact ⟨'/' :: front, by simp [List.intercalate]⟩
      · rw [intercalate_concat _ _ (by simpa using hNames)]
        exact ⟨'/' :: (List.intercalate ['/'] (names.map (·.toList)) ++ (['/'] ++ front)), by simp⟩
    rw [hText]
    simp [hLast]

theorem text_pathOf_concat (name : String) {names : List String} (h : names ≠ []) :
    (pathOf (names ++ [name])).text = (pathOf names).text ++ "/" ++ name := by
  apply String.toList_inj.mp
  rw [text_pathOf, List.map_append, List.map_singleton,
    intercalate_concat _ _ (by simpa using h), String.toList_append, String.toList_append,
    text_pathOf]
  simp

theorem join_pathOf {name : String} (h : ∀ name ∈ names, (Component.name name).IsPart)
    (hName : (Component.name name).IsPart) :
    (pathOf names).join ⟨name⟩ = pathOf (names ++ [name]) := by
  rw [join, if_neg (by rw [isAbsolute_name hName]; decide)]
  rcases List.eq_nil_or_concat' names with rfl | ⟨init, last, rfl⟩
  · -- the root ends in the slash that stands before the name
    have hText : (pathOf [] : FilePath).text ++ name = (pathOf [name]).text := by
      apply String.toList_inj.mp
      rw [String.toList_append, text_pathOf, text_pathOf]
      simp [List.intercalate]
    rw [if_pos (by decide), List.nil_append]
    exact congrArg FilePath.mk hText
  · have hNoSlash := getLast?_pathOf_concat init (h last (by simp))
    have hText := text_pathOf_concat name (List.append_ne_nil_of_right_ne_nil init
      (List.cons_ne_nil last []))
    rw [if_neg (by rw [hNoSlash]; decide)]
    exact congrArg FilePath.mk hText.symm

/-- Names that are joined to a root and names make a path of this kind again. -/
theorem below_pathOf {others : List String} (h : ∀ name ∈ names, (Component.name name).IsPart)
    (hOthers : ∀ name ∈ others, (Component.name name).IsPart) :
    (pathOf names).below others = pathOf (names ++ others) := by
  induction others generalizing names with
  | nil => rw [List.append_nil, below, List.foldl_nil]
  | cons name others ih =>
    obtain ⟨hName, hRest⟩ := List.forall_mem_cons.mp hOthers
    have hMore : ∀ other ∈ names ++ [name], (Component.name other).IsPart := by
      simpa [or_imp, forall_and] using ⟨h, hName⟩
    show ((pathOf names).join ⟨name⟩).below others = _
    rw [join_pathOf h hName, ih hMore hRest, List.append_assoc, List.singleton_append]

/-- A slash at the end of a root does not show in the paths below it. -/
theorem join_join_empty (h : relative.isAbsolute = false) :
    (base.join ⟨""⟩).join relative = base.join relative := by
  have hEmpty : isAbsolute ⟨""⟩ = false := by decide
  by_cases hSlash : base.text.toList.getLast?.all (· = '/') = true
  · have hBase : base.join ⟨""⟩ = base := by
      rw [join, hEmpty, if_neg Bool.false_ne_true, if_pos hSlash, String.append_empty]
    rw [hBase]
  · have hBase : base.join ⟨""⟩ = ⟨base.text ++ "/"⟩ := by
      rw [join, hEmpty, if_neg Bool.false_ne_true, if_neg hSlash, String.append_empty]
    have hEnds : (base.text ++ "/").toList.getLast?.all (· = '/') = true := by simp
    rw [hBase, join, join, h, if_neg Bool.false_ne_true, if_neg Bool.false_ne_true, if_pos hEnds,
      if_neg hSlash]

/-! ## Roots in normal form -/

/-- A part that is not `..` is a name. -/
theorem Component.exists_name {c : Component} (h : c.IsPart) (hNe : c ≠ .parent) :
    ∃ name, c = .name name := by
  cases c with
  | root => exact absurd h Component.not_isPart_root
  | current => exact absurd h.1 (by decide)
  | parent => exact absurd rfl hNe
  | name name => exact ⟨name, rfl⟩

/-- The parts of a path without `..` are names. -/
theorem exists_names_of_parts (h : .parent ∉ path.components) :
    ∃ names : List String, path.parts = names.map .name ∧
      ∀ name ∈ names, (Component.name name).IsPart := by
  have hParts : ∀ c ∈ path.parts, ∃ name, c = .name name := by
    intro c hc
    refine Component.exists_name (isPart_of_mem_parts hc) ?_
    rintro rfl
    have hMem : .parent ∈ path.components.filter (· ≠ .current) := by
      rw [filter_components]
      exact List.mem_append_right _ hc
    exact h (List.mem_of_mem_filter hMem)
  have hAll : ∀ c ∈ path.parts, c.IsPart := fun c hc => isPart_of_mem_parts hc
  -- the names are put together part by part
  generalize path.parts = parts at hParts hAll
  induction parts with
  | nil => exact ⟨[], rfl, fun name hName => absurd hName List.not_mem_nil⟩
  | cons c parts ih =>
    obtain ⟨⟨name, rfl⟩, hRest⟩ := List.forall_mem_cons.mp hParts
    obtain ⟨hName, hAllRest⟩ := List.forall_mem_cons.mp hAll
    obtain ⟨names, rfl, hNames⟩ := ih hRest hAllRest
    exact ⟨name :: names, rfl, List.forall_mem_cons.mpr ⟨hName, hNames⟩⟩

/-- Seen from a working directory in normal form, a path without `..` and without a root of its own
kind consists of a root and names, up to a slash at its end. -/
theorem exists_pathOf_of_absoluteFrom? {workingDirectory : FilePath}
    (hWorking : workingDirectory.isAbsolute = true)
    (hNormal : workingDirectory.normalize = workingDirectory)
    (hParent : .parent ∉ path.components) (hDouble : path.hasDoubleRoot = false)
    (h : path.absoluteFrom? workingDirectory = some root) :
    ∃ names, (∀ name ∈ names, (Component.name name).IsPart) ∧
      (root = pathOf names ∨ root = (pathOf names).join ⟨""⟩) := by
  obtain ⟨above, hAbove, hAboveParts⟩ := normalize_eq_pathOf hWorking
  rw [hNormal] at hAbove
  obtain ⟨names, hNames, hParts⟩ := exists_names_of_parts hParent
  obtain ⟨base, hRoot, hKind⟩ := exists_base_of_absoluteFrom? h
  rw [hNames] at hKind
  rcases hKind with ⟨hTwo, -⟩ | ⟨-, -, rfl⟩ | ⟨-, -, rfl⟩
  · rw [hDouble] at hTwo
    cases hTwo
  · exact ⟨names, hParts, hRoot⟩
  · -- the names of the path stand behind those of the working directory
    refine ⟨above ++ names, ?_, ?_⟩
    · simpa [or_imp, forall_and] using ⟨hAboveParts, hParts⟩
    · rw [← below_pathOf hAboveParts hParts, ← hAbove]
      rw [List.foldl_map] at hRoot
      exact hRoot

end DebtGauge.FilePath
