import DebtGauge.Proofs.FilePath.Parts

/-!
# Normal forms of paths

Two spellings of a path lead to the same place if they have the same normal form. The normal
form of a path is known once its root and its parts are; so it is also known for a path that goes
on from another one, and for the path above a file, from the normal forms alone.

Main definitions and results:

* `Folded` — the shape of folded components: names behind a root, or behind some `..`;
* `Folded.foldl_reverse` — components of this shape stay as they are;
* `normalize_normalize`, `normalize_eq_iff` — a normal form is its own, and stands for its
  components;
* `normalize_join`, `normalize_parent` — normal forms of paths that go on, and of paths above.
-/

namespace DebtGauge.FilePath

/-! ## Folding -/

/-- Folded components, last first: names behind a root, or behind any number of `..`. -/
inductive Folded : List Component → Prop
  | parents (count : Nat) : Folded (List.replicate count .parent)
  | root : Folded [.root]
  | name {text : String} {done : List Component} :
    (Component.name text).IsPart → Folded done → Folded (.name text :: done)

theorem fold_current (done : List Component) : fold done .current = done := by
  cases done <;> rfl

theorem fold_name (done : List Component) (text : String) :
    fold done (.name text) = .name text :: done := by
  cases done with
  | nil => rfl
  | cons c done => cases c <;> rfl

/-- One more part keeps the shape. -/
theorem Folded.fold {done : List Component} (h : Folded done) {c : Component} (hPart : c.IsPart) :
    Folded (fold done c) := by
  cases c with
  | root => exact absurd hPart Component.not_isPart_root
  | current => rwa [fold_current]
  | name text =>
    rw [fold_name]
    exact .name hPart h
  | parent =>
    cases h with
    | parents count =>
      -- there is no name to take away
      cases count with
      | zero => exact .parents 1
      | succ count => exact .parents (count + 2)
    | root => exact .root
    | name _ hDone => exact hDone

theorem Folded.foldl {cs : List Component} (hParts : ∀ c ∈ cs, c.IsPart) {done : List Component}
    (h : Folded done) : Folded (cs.foldl FilePath.fold done) := by
  induction cs generalizing done with
  | nil => exact h
  | cons c cs ih =>
    have hRest : ∀ d ∈ cs, d.IsPart := fun d hd => hParts d (List.mem_cons_of_mem _ hd)
    exact ih hRest (h.fold (hParts c (List.mem_cons_self ..)))

/-- Folded components are not changed when they are folded again. -/
theorem Folded.foldl_reverse {done : List Component} (h : Folded done) :
    done.reverse.foldl FilePath.fold [] = done := by
  induction h with
  | root => rfl
  | name _ _ ih =>
    rw [List.reverse_cons, List.foldl_append, ih, List.foldl_cons, fold_name, List.foldl_nil]
  | parents count =>
    rw [List.reverse_replicate]
    induction count with
    | zero => rfl
    | succ count ih =>
      rw [List.replicate_succ', List.foldl_append, ih, ← List.replicate_succ', List.foldl_cons,
        List.foldl_nil]
      cases count <;> rfl

/-- Folded components are parts, but for a root that they start with. -/
theorem Folded.parts_or_root {done : List Component} (h : Folded done) :
    (∀ c ∈ done, c.IsPart) ∨ ∃ above, done = above ++ [.root] ∧ ∀ c ∈ above, c.IsPart := by
  induction h with
  | root => exact .inr ⟨[], rfl, by simp⟩
  | parents count =>
    left
    intro c hc
    obtain rfl := List.eq_of_mem_replicate hc
    unfold Component.IsPart
    decide
  | name hPart _ ih =>
    rcases ih with hAll | ⟨above, rfl, hAll⟩
    · exact .inl (List.forall_mem_cons.mpr ⟨hPart, hAll⟩)
    · exact .inr ⟨_ :: above, rfl, List.forall_mem_cons.mpr ⟨hPart, hAll⟩⟩

/-! ## Normal components -/

theorem foldl_filter_current (cs done : List Component) :
    (cs.filter (· ≠ .current)).foldl fold done = cs.foldl fold done := by
  induction cs generalizing done with
  | nil => rfl
  | cons c cs ih =>
    by_cases hCurrent : c = .current
    · subst hCurrent
      rw [List.filter_cons_of_neg (by simp), List.foldl_cons, fold_current, ih]
    · rw [List.filter_cons_of_pos (by simp [hCurrent]), List.foldl_cons, List.foldl_cons, ih]

theorem normalComponents_eq (path : FilePath) :
    path.normalComponents = ((path.lead ++ path.parts).foldl fold []).reverse := by
  rw [← filter_components, foldl_filter_current, normalComponents]

theorem folded_normalComponents (path : FilePath) : Folded path.normalComponents.reverse := by
  rw [normalComponents_eq, List.reverse_reverse, List.foldl_append]
  refine Folded.foldl (fun c hc => isPart_of_mem_parts hc) ?_
  unfold lead
  split
  · exact .root
  · exact .parents 0

/-- The normal form of a path is spelled with just the components of the normal form. -/
theorem lead_parts_normalize (path : FilePath) :
    path.normalize.lead ++ path.normalize.parts = path.normalComponents := by
  unfold normalize
  rcases path.folded_normalComponents.parts_or_root with hAll | ⟨above, hRoot, hAll⟩
  · have hParts : ∀ c ∈ path.normalComponents, c.IsPart :=
      fun c hc => hAll c (List.mem_reverse.mpr hc)
    obtain ⟨hLead, hSame⟩ := parts_ofComponents hParts
    rw [hLead, hSame, List.nil_append]
  · have hComponents : path.normalComponents = .root :: above.reverse := by
      rw [← List.reverse_reverse path.normalComponents, hRoot]
      simp
    have hParts : ∀ c ∈ above.reverse, c.IsPart := fun c hc => hAll c (List.mem_reverse.mp hc)
    obtain ⟨hLead, hSame⟩ := parts_ofComponents_root hParts
    rw [hComponents, hLead, hSame, List.singleton_append]

theorem normalComponents_normalize (path : FilePath) :
    path.normalize.normalComponents = path.normalComponents := by
  have hFold := path.folded_normalComponents.foldl_reverse
  rw [List.reverse_reverse] at hFold
  rw [normalComponents_eq, lead_parts_normalize, hFold, List.reverse_reverse]

theorem normalize_normalize (path : FilePath) : path.normalize.normalize = path.normalize := by
  rw [normalize, normalComponents_normalize, normalize]

theorem normalize_eq_iff {a b : FilePath} :
    a.normalize = b.normalize ↔ a.normalComponents = b.normalComponents := by
  constructor
  · intro h
    rw [← a.normalComponents_normalize, h, b.normalComponents_normalize]
  · intro h
    rw [normalize, normalize, h]

/-! ## Going on and going up -/

theorem normalComponents_join (base : FilePath) {relative : FilePath}
    (h : relative.isAbsolute = false) : (base.join relative).normalComponents =
      (relative.parts.foldl fold base.normalComponents.reverse).reverse := by
  rw [normalComponents_eq, lead_join h, parts_join h, ← List.append_assoc, List.foldl_append,
    normalComponents_eq base, List.reverse_reverse]

/-- It makes no difference whether a path is normalised before another one is joined to it. -/
theorem normalize_join (base relative : FilePath) :
    (base.join relative).normalize = (base.normalize.join relative).normalize := by
  cases hAbsolute : relative.isAbsolute with
  | true =>
    -- the path that is joined is seen as itself
    unfold join
    rw [if_pos hAbsolute, if_pos hAbsolute]
  | false =>
    -- the parts of the path that is joined are folded onto the same components
    rw [normalize_eq_iff, normalComponents_join _ hAbsolute, normalComponents_join _ hAbsolute,
      normalComponents_normalize]

theorem resolve_congr {a b : FilePath} (h : a.normalize = b.normalize) (specifier : String) :
    a.resolve specifier = b.resolve specifier := by
  rw [resolve, resolve, normalize_join a, normalize_join b, h]

theorem normalComponents_of_fileName? {path : FilePath} {name : String}
    (h : path.fileName? = some name) : ∃ above, path.parent? = some above ∧
      path.normalComponents = above.normalComponents ++ [.name name] := by
  obtain ⟨above, hAbove, hLead, hParts⟩ := exists_parent_of_fileName? h
  refine ⟨above, hAbove, ?_⟩
  rw [normalComponents_eq, normalComponents_eq, hParts, ← hLead, ← List.append_assoc,
    List.foldl_append, List.foldl_cons, fold_name, List.foldl_nil, List.reverse_cons]

/-- Above two spellings of a file there is the same directory. -/
theorem normalize_parent {a b : FilePath} (h : a.normalize = b.normalize)
    (ha : a.fileName?.isSome) (hb : b.fileName?.isSome) : ∃ aboveA aboveB,
      a.parent? = some aboveA ∧ b.parent? = some aboveB ∧
        aboveA.normalize = aboveB.normalize := by
  obtain ⟨nameA, ha⟩ := Option.isSome_iff_exists.mp ha
  obtain ⟨nameB, hb⟩ := Option.isSome_iff_exists.mp hb
  obtain ⟨aboveA, hParentA, hSplitA⟩ := normalComponents_of_fileName? ha
  obtain ⟨aboveB, hParentB, hSplitB⟩ := normalComponents_of_fileName? hb
  refine ⟨aboveA, aboveB, hParentA, hParentB, ?_⟩
  -- no `..` follows the names, so that the normal forms of the directories can be read off
  have hSame : aboveA.normalComponents ++ [.name nameA] =
      aboveB.normalComponents ++ [.name nameB] := by
    rw [← hSplitA, ← hSplitB, normalize_eq_iff.mp h]
  exact normalize_eq_iff.mpr (List.append_inj' hSame rfl).1

end DebtGauge.FilePath
