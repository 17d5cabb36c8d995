import DebtGauge.Proofs.Settings.Weights

/-!
# What overrides leave behind

Overrides are applied one by one up to the first one that cannot be read. Each of them sets the
weight of one category and leaves the others alone, so what counts for a category is the last
override that names it, and overrides of different categories may change places. Those that stand
before an unreadable one stay in force. Weights that were proper before are proper afterwards, so
that the test at the end has nothing to find.

Main definitions:

* `Weights.setAll` — the weights after overrides that have been read;
* `Weights.lastFor?` — the weight that the last override of a category gives.

Main results:

* `Weights.applyOverrides_append` — what is readable is applied before the rest is looked at;
* `Weights.get_setAll` — the last override of a category decides;
* `Weights.last_override_wins` — the weights and the outcome of every list of overrides.
-/

namespace DebtGauge.Weights

variable {weights : Weights} {entries before after : List String} {entry : String}
  {overrides : List (Rule × Float)}

/-! ## Overrides that have been read -/

/-- The weights after overrides that have been read, one after the other. -/
def setAll (weights : Weights) (overrides : List (Rule × Float)) : Weights :=
  overrides.foldl (fun weights override => weights.set override.1 override.2) weights

/-- The weight that the last override of a category gives, if there is one for it. -/
def lastFor? (overrides : List (Rule × Float)) (rule : Rule) : Option Float :=
  (overrides.filter (·.1 = rule)).getLast?.map Prod.snd

/-- Weights are the same if each category has the same weight. -/
theorem ext_get {other : Weights} (h : ∀ rule, weights.get rule = other.get rule) :
    weights = other := by
  cases weights
  cases other
  rw [Weights.mk.injEq]
  exact ⟨h .complexity, h .size, h .typeSafety, h .duplication, h .circularDependency⟩

/-- Different categories may be set in any order. -/
theorem set_comm {first second : Rule} (h : first ≠ second) (x y : Float) :
    (weights.set first x).set second y = (weights.set second y).set first x := by
  apply ext_get
  intro rule
  rw [get_set, get_set, get_set, get_set]
  by_cases hFirst : rule = first
  · have hSecond : rule ≠ second := fun hSame => h (hFirst.symm.trans hSame)
    simp [hFirst, h]
  · simp [hFirst]

theorem lastFor?_concat (overrides : List (Rule × Float)) (override : Rule × Float) (rule : Rule) :
    lastFor? (overrides ++ [override]) rule =
      if override.1 = rule then some override.2 else lastFor? overrides rule := by
  unfold lastFor?
  rw [List.filter_append]
  by_cases hRule : override.1 = rule
  · simp [hRule]
  · simp [hRule]

/-- The last override of a category decides about its weight; without one the weight stays. -/
theorem get_setAll (weights : Weights) (overrides : List (Rule × Float)) (rule : Rule) :
    (weights.setAll overrides).get rule = (lastFor? overrides rule).getD (weights.get rule) := by
  -- from the last override to the first, since the last one is asked first
  induction overrides using List.reverseRecOn with
  | nil => rfl
  | append_singleton overrides override ih =>
    unfold setAll at ih ⊢
    rw [List.foldl_append, List.foldl_cons, List.foldl_nil, get_set, lastFor?_concat]
    by_cases hRule : override.1 = rule
    · rw [if_pos hRule.symm, if_pos hRule]
      rfl
    · rw [if_neg (Ne.symm hRule), if_neg hRule, ih]

/-! ## Lists of overrides -/

theorem exists_of_mem_of_reads (h : entries.mapM parseOverride = .ok overrides) :
    ∀ entry ∈ entries, ∃ override, parseOverride entry = .ok override := by
  intro entry hEntry
  obtain ⟨override, -, hOverride⟩ := exists_of_mem_of_forall₂ (forall₂_of_mapM h).flip hEntry
  exact ⟨override, hOverride⟩

/-- What is readable is applied before the rest is looked at. -/
theorem applyOverrides_append (h : before.mapM parseOverride = .ok overrides)
    (after : List String) :
    weights.applyOverrides (before ++ after) = (weights.setAll overrides).applyOverrides after := by
  have hAll := forall₂_of_mapM h
  clear h
  induction hAll generalizing weights with
  | nil => rfl
  | @cons entry override _ _ hEntry _ ih =>
    obtain ⟨rule, weight⟩ := override
    show weights.applyOverrides (entry :: _) = _
    rw [applyOverrides, hEntry]
    exact ih

theorem applyOverrides_eq_of_reads (h : entries.mapM parseOverride = .ok overrides) :
    weights.applyOverrides entries =
      (weights.setAll overrides, (weights.setAll overrides).validate) := by
  have hAppend : weights.applyOverrides (entries ++ []) = _ := applyOverrides_append h []
  rwa [List.append_nil] at hAppend

/-- The first override that cannot be read ends the list; those before it stay in force. -/
theorem applyOverrides_of_unreadable {failure : Failure}
    (hBefore : ∀ earlier ∈ before, ∃ override, parseOverride earlier = .ok override)
    (hEntry : parseOverride entry = .error failure) :
    weights.applyOverrides (before ++ entry :: after) =
      ((weights.applyOverrides before).1, .error failure) := by
  obtain ⟨overrides, hRead⟩ := exists_mapM hBefore
  rw [applyOverrides_append hRead, applyOverrides_eq_of_reads hRead, applyOverrides, hEntry]

/-- Neighbours that name different categories may change places, whatever stands around them. -/
theorem applyOverrides_swap {first second : String} {rule other : Rule} {x y : Float}
    (hFirst : parseOverride first = .ok (rule, x)) (hSecond : parseOverride second = .ok (other, y))
    (hNe : rule ≠ other) :
    weights.applyOverrides (before ++ first :: second :: after) =
      weights.applyOverrides (before ++ second :: first :: after) := by
  induction before generalizing weights with
  | nil =>
    simp only [List.nil_append, applyOverrides, hFirst, hSecond]
    rw [set_comm hNe]
  | cons entry before ih =>
    rw [List.cons_append, List.cons_append, applyOverrides, applyOverrides]
    cases parseOverride entry with
    | error failure => rfl
    | ok override => exact ih

/-- Proper weights pass the test. -/
theorem validate_of_allProper (h : weights.AllProper) : weights.validate = .ok () := by
  have hNone : Rule.all.find? (fun rule => !isProper (weights.get rule)) = none := by
    rw [List.find?_eq_none]
    intro rule _
    simp [isProper_iff.mpr (h rule)]
  rw [validate, hNone]

/-- A list of overrides succeeds just if each of them can be read. -/
theorem applyOverrides_ok_iff (hValid : weights.validate = .ok ()) :
    (weights.applyOverrides entries).2 = .ok () ↔
      ∀ entry ∈ entries, ∃ override, parseOverride entry = .ok override := by
  constructor
  · intro hOk
    cases hRead : entries.mapM parseOverride with
    | ok overrides => exact exists_of_mem_of_reads hRead
    | error failure =>
      -- the first override that cannot be read would be the outcome
      obtain ⟨before, entry, after, rfl, hBefore, hEntry⟩ := mapM_eq_error_iff.mp hRead
      rw [applyOverrides_of_unreadable hBefore hEntry] at hOk
      cases hOk
  · intro hAll
    obtain ⟨overrides, hRead⟩ := exists_mapM hAll
    have hAfter := allProper_applyOverrides (allProper_of_validate hValid) entries
    rw [applyOverrides_eq_of_reads hRead] at hAfter ⊢
    exact validate_of_allProper hAfter

/-! ## Main result -/

/-- Overrides on top of proper weights succeed just if each of them can be read. Then the weight of
a category is the one that the last override of the category gives, or the old one if there is
none, and neighbours that name different categories may change places. If some override cannot be
read, the outcome is the failure of the first one of these, and the weights are those that the
overrides before it leave behind. In any case the weights are proper in the end, so that the test
of all weights never fails. -/
theorem last_override_wins (hValid : weights.validate = .ok ()) (entries : List String) :
    ((weights.applyOverrides entries).2 = .ok () ↔
      ∀ entry ∈ entries, ∃ override, parseOverride entry = .ok override) ∧
    (∀ overrides, entries.mapM parseOverride = .ok overrides → ∀ rule,
      (weights.applyOverrides entries).1.get rule =
        (lastFor? overrides rule).getD (weights.get rule)) ∧
    (∀ before first second after rule other x y, entries = before ++ first :: second :: after →
      parseOverride first = .ok (rule, x) → parseOverride second = .ok (other, y) → rule ≠ other →
        weights.applyOverrides entries =
          weights.applyOverrides (before ++ second :: first :: after)) ∧
    ((∃ entry ∈ entries, ∀ override, parseOverride entry ≠ .ok override) →
      ∃ before entry after failure, entries = before ++ entry :: after ∧
        (∀ earlier ∈ before, ∃ override, parseOverride earlier = .ok override) ∧
        parseOverride entry = .error failure ∧
        weights.applyOverrides entries = ((weights.applyOverrides before).1, .error failure)) ∧
    (weights.applyOverrides entries).1.validate = .ok () := by
  refine ⟨applyOverrides_ok_iff hValid, ?_, ?_, ?_, ?_⟩
  · intro overrides hRead rule
    rw [applyOverrides_eq_of_reads hRead]
    exact get_setAll weights overrides rule
  · rintro before first second after rule other x y rfl hFirst hSecond hNe
    exact applyOverrides_swap hFirst hSecond hNe
  · rintro ⟨entry, hEntry, hUnreadable⟩
    cases hRead : entries.mapM parseOverride with
    | ok overrides =>
      obtain ⟨override, hOverride⟩ := exists_of_mem_of_reads hRead entry hEntry
      exact absurd hOverride (hUnreadable override)
    | error failure =>
      obtain ⟨before, first, after, rfl, hBefore, hFirst⟩ := mapM_eq_error_iff.mp hRead
      exact ⟨before, first, after, failure, rfl, hBefore, hFirst,
        applyOverrides_of_unreadable hBefore hFirst⟩
  · exact validate_of_allProper (allProper_applyOverrides (allProper_of_validate hValid) entries)

/-- Complexity is named twice and its last override stands; the list with a faulty end keeps what
stands before the fault. -/
theorem last_override_wins_namedTwice :
    standard.validate = .ok () ∧
    (standard.applyOverrides ["complexity=0.4", " size = 1", "complexity=2"]).2 = .ok () ∧
    (standard.applyOverrides ["complexity=0.4", " size = 1", "complexity=2"]).1.get .complexity =
      2.0 ∧
    (standard.applyOverrides ["complexity=0.4", "size=-1", "size=3"]).2 ≠ .ok () ∧
    (standard.applyOverrides ["complexity=0.4", "size=-1", "size=3"]).1.validate = .ok () := by
  have hValid : standard.validate = .ok () := rfl
  obtain ⟨hOk, hLast, -⟩ := last_override_wins hValid ["complexity=0.4", " size = 1", "complexity=2"]
  obtain ⟨hFaultyOk, -, -, -, hFaultyValid⟩ :=
    last_override_wins hValid ["complexity=0.4", "size=-1", "size=3"]
  have hRead : ["complexity=0.4", " size = 1", "complexity=2"].mapM parseOverride =
      .ok [(.complexity, 0.4), (.size, 1.0), (.complexity, 2.0)] := rfl
  refine ⟨hValid, hOk.mpr (exists_of_mem_of_reads hRead), hLast _ hRead .complexity, ?_,
    hFaultyValid⟩
  -- the second override of the faulty list has a negative weight
  intro hSuccess
  obtain ⟨override, hOverride⟩ := hFaultyOk.mp hSuccess "size=-1" (by simp)
  have hRefused : (parseOverride "size=-1").toOption = none := by decide +kernel
  rw [hOverride] at hRefused
  cases hRefused

end DebtGauge.Weights
