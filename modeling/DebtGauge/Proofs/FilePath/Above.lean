import DebtGauge.Proofs.FilePath.Below

/-!
# Above a file in normal form

A path in normal form is spelled as its components are: a root or nothing, and the parts with
single slashes between them. So what is left when its file name is cut off is in normal form
too, and the name joined to this is the path again.

Main results:

* `parent?_ofComponents` — the last part of a normal path is cut off;
* `join_ofComponents` — a name that is joined to a normal path is its new last part;
* `exists_join_of_normal` — a file in normal form is its name, joined to the path above it;
* `fileName?_eq_none_iff` — the paths in normal form that have no file name.
-/

namespace DebtGauge.FilePath

variable {cs done : List Component} {c : Component} {path : FilePath}

/-! ## Texts of parts -/

theorem eq_of_toList {a b : FilePath} (h : a.text.toList = b.text.toList) : a = b := by
  cases a
  cases b
  exact congrArg FilePath.mk (String.toList_inj.mp h)

theorem splitOn_texts (h : ∀ c ∈ cs, c.IsPart) (hne : cs ≠ []) :
    Text.splitOn '/' (List.intercalate ['/'] (cs.map (·.text.toList))) =
      cs.map (·.text.toList) := by
  have hSlash : ∀ piece ∈ cs.map (·.text.toList), '/' ∉ piece := by
    intro piece hPiece
    obtain ⟨c, hc, rfl⟩ := List.mem_map.mp hPiece
    exact (h c hc).2
  rw [Text.splitOn_eq, List.splitOn_intercalate '/' hSlash (by simpa using hne)]

/-- The last character of a part is no slash. -/
theorem Component.IsPart.getLast? (h : c.IsPart) :
    ∃ last, c.text.toList.getLast? = some last ∧ last ≠ '/' := by
  obtain ⟨hPiece, hSlash⟩ := h
  rcases List.eq_nil_or_concat' c.text.toList with hNil | ⟨front, last, hConcat⟩
  · rw [hNil] at hPiece
    cases hPiece
  · refine ⟨last, by rw [hConcat, List.getLast?_concat], ?_⟩
    rintro rfl
    rw [hConcat] at hSlash
    simp at hSlash

/-- Parts joined by slashes do not end in a slash. -/
theorem getLast?_texts (h : ∀ c ∈ cs, c.IsPart) (hne : cs ≠ []) :
    ∃ last, (List.intercalate ['/'] (cs.map (·.text.toList))).getLast? = some last ∧
      last ≠ '/' := by
  rcases List.eq_nil_or_concat' cs with rfl | ⟨front, c, rfl⟩
  · exact absurd rfl hne
  · obtain ⟨last, hLast, hSlash⟩ := (h c (by simp)).getLast?
    refine ⟨last, ?_, hSlash⟩
    rw [List.map_append, List.map_singleton]
    by_cases hFront : front = []
    · subst hFront
      simpa [List.intercalate] using hLast
    · rw [intercalate_concat _ _ (by simpa using hFront), List.getLast?_append,
        List.getLast?_append, hLast]
      rfl

theorem text_ofComponents (h : ∀ c ∈ cs, c.IsPart) :
    (ofComponents cs).text.toList = List.intercalate ['/'] (cs.map (·.text.toList)) := by
  unfold ofComponents
  split
  · exact absurd (h .root (List.mem_cons_self ..)) Component.not_isPart_root
  · exact String.toList_ofList

theorem text_ofComponents_root (cs : List Component) :
    (ofComponents (.root :: cs)).text.toList =
      '/' :: List.intercalate ['/'] (cs.map (·.text.toList)) :=
  String.toList_ofList

/-! ## Cutting off the last part -/

theorem cut_ofText {text : List Char} (hSlash : text.head? ≠ some '/')
    (hDot : (Text.splitOn '/' text).head? ≠ some ['.']) :
    Cut.ofText text = ⟨[], Text.splitOn '/' text⟩ := by
  unfold Cut.ofText
  split
  · simp at hSlash
  · simp [Text.splitOn] at hDot
  · simp [Text.splitOn] at hDot
  · rfl

/-- No part is a dot, so a path that is made of parts has no lead. -/
theorem cut_ofComponents (h : ∀ c ∈ cs, c.IsPart) (hne : cs ≠ []) :
    Cut.ofText (ofComponents cs).text.toList = ⟨[], cs.map (·.text.toList)⟩ := by
  rw [text_ofComponents h, cut_ofText (head?_intercalate_ne h) ?_, splitOn_texts h hne]
  rw [splitOn_texts h hne]
  intro hHead
  obtain ⟨c, rest, rfl⟩ := List.exists_cons_of_ne_nil hne
  have hText : c.text.toList = ['.'] := by simpa using hHead
  have hPiece := (h c (List.mem_cons_self ..)).1
  rw [hText] at hPiece
  cases hPiece

theorem cut_ofComponents_root (h : ∀ c ∈ cs, c.IsPart) (hne : cs ≠ []) :
    Cut.ofText (ofComponents (.root :: cs)).text.toList = ⟨['/'], cs.map (·.text.toList)⟩ := by
  rw [text_ofComponents_root, Cut.ofText, splitOn_texts h hne]

theorem dropEmptyEnd_texts (h : ∀ c ∈ cs, c.IsPart) :
    dropEmptyEnd (cs.map (·.text.toList)) = cs.map (·.text.toList) := by
  rcases List.eq_nil_or_concat' cs with rfl | ⟨front, c, rfl⟩
  · rfl
  · have hLast := (h c (by simp)).1
    rw [List.map_append, List.map_singleton, dropEmptyEnd_concat, hLast]
    rfl

/-- The lead of a path stays when its last part is cut off, and so do the parts before it. -/
theorem parent?_of_cut {lead : List Char} (h : ∀ d ∈ cs ++ [c], d.IsPart)
    (hCut : Cut.ofText path.text.toList = ⟨lead, (cs ++ [c]).map (·.text.toList)⟩) :
    path.parent? = some ⟨String.ofList (lead ++
      List.intercalate ['/'] (cs.map (·.text.toList)))⟩ := by
  have hFront : ∀ d ∈ cs, d.IsPart := fun d hd => h d (List.mem_append_left _ hd)
  unfold parent?
  simp only [hCut, dropEmptyEnd_texts h]
  rw [List.map_append, List.map_singleton, List.reverse_append, List.reverse_singleton,
    List.singleton_append]
  simp only [List.reverse_reverse, dropEmptyEnd_texts hFront, Cut.text]

/-- The last part of a path in normal form is cut off. -/
theorem parent?_ofComponents (hDone : Folded done) (hPart : c.IsPart) :
    (ofComponents (done.reverse ++ [c])).parent? = some (ofComponents done.reverse) := by
  rcases hDone.parts_or_root with hAll | ⟨above, rfl, hAll⟩
  · have hFront : ∀ d ∈ done.reverse, d.IsPart := fun d hd => hAll d (List.mem_reverse.mp hd)
    have hParts : ∀ d ∈ done.reverse ++ [c], d.IsPart := by
      simpa [or_imp, forall_and] using ⟨hAll, hPart⟩
    rw [parent?_of_cut hParts (cut_ofComponents hParts (by simp))]
    refine congrArg some (eq_of_toList ?_)
    rw [text_ofComponents hFront, String.toList_ofList, List.nil_append]
  · have hParts : ∀ d ∈ above.reverse ++ [c], d.IsPart := by
      simpa [or_imp, forall_and] using ⟨hAll, hPart⟩
    rw [List.reverse_append, List.reverse_singleton, List.singleton_append, List.cons_append,
      parent?_of_cut hParts (cut_ofComponents_root hParts (by simp))]
    refine congrArg some (eq_of_toList ?_)
    rw [text_ofComponents_root, String.toList_ofList, List.singleton_append]

/-! ## Joining a name -/

/-- A slash stands between two paths that are joined, unless the first one ends in one. -/
theorem text_join {base relative : FilePath} (h : relative.isAbsolute = false) :
    (base.join relative).text.toList = base.text.toList ++
      (if base.text.toList.getLast?.all (· = '/') then [] else ['/']) ++
        relative.text.toList := by
  unfold join
  rw [h, if_neg Bool.false_ne_true]
  split <;> simp

theorem intercalate_texts_concat (hne : cs ≠ []) (name : String) :
    List.intercalate ['/'] ((cs ++ [Component.name name]).map (·.text.toList)) =
      List.intercalate ['/'] (cs.map (·.text.toList)) ++ (['/'] ++ name.toList) := by
  rw [List.map_append, List.map_singleton, intercalate_concat _ _ (by simpa using hne)]
  rfl

theorem intercalate_texts_singleton (name : String) :
    List.intercalate ['/'] ([Component.name name].map (·.text.toList)) = name.toList := by
  rw [List.map_singleton, List.intercalate_singleton]
  rfl

/-- A name that is joined to a path in normal form is its new last part. -/
theorem join_ofComponents {name : String} (hDone : Folded done)
    (hName : (Component.name name).IsPart) :
    (ofComponents done.reverse).join ⟨name⟩ = ofComponents (done.reverse ++ [.name name]) := by
  refine eq_of_toList ?_
  rw [text_join (isAbsolute_name hName)]
  rcases hDone.parts_or_root with hAll | ⟨above, rfl, hAll⟩
  · have hFront : ∀ d ∈ done.reverse, d.IsPart := fun d hd => hAll d (List.mem_reverse.mp hd)
    have hParts : ∀ d ∈ done.reverse ++ [.name name], d.IsPart := by
      simpa [or_imp, forall_and] using ⟨hAll, hName⟩
    rw [text_ofComponents hFront, text_ofComponents hParts]
    by_cases hNil : done.reverse = []
    · -- nothing stands before the name
      rw [hNil, List.nil_append, intercalate_texts_singleton]
      rfl
    · obtain ⟨last, hLast, hSlash⟩ := getLast?_texts hFront hNil
      rw [hLast, intercalate_texts_concat hNil]
      simp [hSlash]
  · have hFront : ∀ d ∈ above.reverse, d.IsPart := fun d hd => hAll d (List.mem_reverse.mp hd)
    rw [List.reverse_append, List.reverse_singleton, List.singleton_append, List.cons_append,
      text_ofComponents_root, text_ofComponents_root]
    by_cases hNil : above.reverse = []
    · -- the slash of the root stands before the name
      rw [hNil, List.nil_append, intercalate_texts_singleton]
      rfl
    · obtain ⟨last, hLast, hSlash⟩ := getLast?_texts hFront hNil
      rw [List.getLast?_cons, hLast, intercalate_texts_concat hNil]
      simp [hSlash]

/-! ## Files in normal form -/

theorem getLast?_components (path : FilePath) :
    path.components.getLast? = path.parts.getLast?.or
      (Cut.ofText path.text.toList).leadComponent? := by
  unfold components
  dsimp only
  rw [← parts_eq_filterMap, List.getLast?_append]
  cases (Cut.ofText path.text.toList).leadComponent? <;> rfl

/-- The file name of a path is its last component, if that is a name. -/
theorem fileName?_eq_some_iff {name : String} :
    path.fileName? = some name ↔ (path.lead ++ path.parts).getLast? = some (.name name) := by
  rw [List.getLast?_append]
  constructor
  · intro h
    obtain ⟨init, hInit⟩ := exists_parts_of_fileName? h
    rw [hInit, List.getLast?_concat]
    rfl
  · intro h
    unfold fileName?
    rw [getLast?_components]
    cases hParts : path.parts.getLast? with
    | some last =>
      rw [hParts] at h
      obtain rfl : last = .name name := by simpa using h
      rfl
    | none =>
      -- a lead is no name
      rw [hParts, Option.none_or, lead] at h
      split at h <;> simp at h

/-- A path in normal form is spelled as its components are. -/
theorem exists_folded_of_normal (hNormal : path.normalize = path) :
    ∃ done, Folded done ∧ path = ofComponents done.reverse ∧
      path.lead ++ path.parts = done.reverse := by
  have hComponents := lead_parts_normalize path
  rw [hNormal] at hComponents
  refine ⟨path.normalComponents.reverse, path.folded_normalComponents, ?_, ?_⟩
  · rw [List.reverse_reverse]
    exact hNormal.symm
  · rwa [List.reverse_reverse]

/-- A file in normal form is its name, joined to the path above it. -/
theorem exists_join_of_normal {name : String} (hNormal : path.normalize = path)
    (h : path.fileName? = some name) : ∃ above, path.parent? = some above ∧
      above.join ⟨name⟩ = path := by
  obtain ⟨done, hFolded, hPath, hComponents⟩ := exists_folded_of_normal hNormal
  have hLast : done.head? = some (.name name) := by
    rw [← List.getLast?_reverse, ← hComponents]
    exact fileName?_eq_some_iff.mp h
  cases hFolded with
  | parents count => cases count <;> simp [List.replicate_succ] at hLast
  | root => simp at hLast
  | @name text rest hName hRest =>
    obtain rfl : text = name := by simpa using hLast
    rw [List.reverse_cons] at hPath
    refine ⟨ofComponents rest.reverse, ?_, ?_⟩
    · rw [hPath]
      exact parent?_ofComponents hRest hName
    · rw [hPath]
      exact join_ofComponents hRest hName

/-- In normal form, the root has no file name, and neither has what consists of `..` alone, as
the empty path does. -/
theorem fileName?_eq_none_iff (hNormal : path.normalize = path) : path.fileName? = none ↔
    path = ⟨"/"⟩ ∨ ∃ count, path = ofComponents (List.replicate count .parent) := by
  constructor
  · intro h
    obtain ⟨done, hFolded, hPath, hComponents⟩ := exists_folded_of_normal hNormal
    cases hFolded with
    | parents count => exact .inr ⟨count, by rw [hPath, List.reverse_replicate]⟩
    | root => exact .inl hPath
    | @name text rest hName hRest =>
      -- the last component is a name
      have hSome : path.fileName? = some text := by
        rw [fileName?_eq_some_iff, hComponents, List.reverse_cons, List.getLast?_concat]
      rw [hSome] at h
      cases h
  · rintro (rfl | ⟨count, rfl⟩)
    · decide
    · have hParts : ∀ c ∈ List.replicate count Component.parent, c.IsPart := by
        intro c hc
        obtain rfl := List.eq_of_mem_replicate hc
        unfold Component.IsPart
        decide
      obtain ⟨hLead, hSame⟩ := parts_ofComponents hParts
      rw [Option.eq_none_iff_forall_ne_some]
      intro name hName
      rw [fileName?_eq_some_iff, hLead, hSame, List.nil_append] at hName
      have hMem := List.eq_of_mem_replicate (List.mem_of_getLast? hName)
      cases hMem

end DebtGauge.FilePath
