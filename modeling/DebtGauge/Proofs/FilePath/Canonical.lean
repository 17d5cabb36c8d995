import DebtGauge.Proofs.FilePath.Above
import Mathlib.Data.Finset.Lattice.Fold
import Mathlib.Order.Lattice.Nat

/-!
# The canonical form of a path

What the normal form of a path looks like can be told without folding its components. A `..`
takes away the name before it that no other `..` in between has taken, as a closing bracket
belongs to an opening one. The names that are left over are those of the normal form. The `..`
that are left over have no name to take; there are as many of them as the `..` ever outnumber the
names, read from the left. They stand in front of a relative path, and are lost at a root.

Main definitions:

* `surplus`, `largestSurplus` — by how many the `..` outnumber the names, in all and at most;
* `CancelsOut`, `IsCancelled` — when a later `..` takes a name away;
* `keptNames` — the names that are not taken away.

Main results:

* `isCancelled_iff` — a name is taken away just if the `..` behind it ever outnumber the names.
* `foldl_fold_ground` — what folding components onto others leads to.
* `normalize_canonical` — the components of a normal form.
-/

namespace DebtGauge.FilePath

/-- The component is a name. -/
def Component.isName : Component → Bool
  | .name _ => true
  | _ => false

/-- By how many the `..` outnumber the names. -/
def surplus (cs : List Component) : Nat :=
  cs.count .parent - cs.countP Component.isName

/-- By how many the `..` outnumber the names at most, over all first parts of the list. -/
def largestSurplus (cs : List Component) : Nat :=
  cs.inits.toFinset.sup surplus

/-- Each `..` takes away a name of the list, and no name is left over. -/
structure CancelsOut (cs : List Component) : Prop where
  no_surplus : largestSurplus cs = 0
  balanced : cs.count .parent = cs.countP Component.isName

/-- One of the components behind a name takes it away: the `..` before which all that follows the
name cancels out. -/
def IsCancelled (behind : List Component) : Prop :=
  ∃ between rest, behind = between ++ .parent :: rest ∧ CancelsOut between

/-! ## The largest surplus -/

theorem largestSurplus_le_iff {cs : List Component} {bound : Nat} :
    largestSurplus cs ≤ bound ↔
      ∀ first, first <+: cs → first.count .parent ≤ first.countP Component.isName + bound := by
  simp [largestSurplus, surplus, Nat.add_comm]

theorem largestSurplus_nil : largestSurplus [] = 0 := by
  decide

/-- Nothing is no surplus, so that only first parts with the first component count. -/
theorem largestSurplus_cons_le_iff {c : Component} {cs : List Component} {bound : Nat} :
    largestSurplus (c :: cs) ≤ bound ↔ ∀ first, first <+: cs →
      (c :: first).count .parent ≤ (c :: first).countP Component.isName + bound := by
  rw [largestSurplus_le_iff]
  constructor
  · intro h first hFirst
    exact h (c :: first) (List.cons_prefix_cons.mpr ⟨rfl, hFirst⟩)
  · intro h first hFirst
    rcases List.prefix_cons_iff.mp hFirst with rfl | ⟨rest, rfl, hRest⟩
    · exact Nat.zero_le _
    · exact h rest hRest

/-- A `..` in front is one more that has no name to take. -/
theorem largestSurplus_parent (cs : List Component) :
    largestSurplus (.parent :: cs) = largestSurplus cs + 1 := by
  refine eq_of_forall_ge_iff fun bound => ?_
  simp only [largestSurplus_cons_le_iff, List.count_cons_self, List.countP_cons,
    Component.isName, Bool.false_eq_true, if_false, Nat.add_zero]
  cases bound with
  | zero =>
    -- the `..` alone is a first part already
    refine iff_of_false (fun h => ?_) (Nat.not_succ_le_zero _)
    exact Nat.not_succ_le_zero _ (h [] List.nil_prefix)
  | succ bound =>
    rw [Nat.succ_le_succ_iff, largestSurplus_le_iff]
    simp only [← Nat.add_assoc, Nat.add_le_add_iff_right]

/-- A name in front is taken by the first `..` that has no other to take. -/
theorem largestSurplus_name (text : String) (cs : List Component) :
    largestSurplus (.name text :: cs) = largestSurplus cs - 1 := by
  refine eq_of_forall_ge_iff fun bound => ?_
  rw [Nat.sub_le_iff_le_add, largestSurplus_cons_le_iff, largestSurplus_le_iff]
  simp only [List.count_cons_of_ne (Component.noConfusion : Component.name text ≠ .parent),
    List.countP_cons_of_pos (rfl : Component.isName (.name text) = true), Nat.add_assoc,
    Nat.add_comm 1]

/-- A component that is no name and no `..` does not count. -/
theorem largestSurplus_other {c : Component} (hName : c.isName = false) (hParent : c ≠ .parent)
    (cs : List Component) : largestSurplus (c :: cs) = largestSurplus cs := by
  refine eq_of_forall_ge_iff fun bound => ?_
  rw [largestSurplus_cons_le_iff, largestSurplus_le_iff]
  simp only [List.count_cons_of_ne hParent, List.countP_cons_of_neg (Bool.eq_false_iff.mp hName)]

/-! ## Names that are taken away -/

/-- Where the `..` outnumber the names for the first time there is a `..`, and all before it
cancels out. -/
theorem cancelsOut_of_first {before : List Component} {c : Component}
    (hBefore : largestSurplus before = 0) (hAfter : 0 < largestSurplus (before ++ [c])) :
    c = .parent ∧ CancelsOut before := by
  have hNever := largestSurplus_le_iff.mp hBefore.le
  have hWhole := hNever before (List.prefix_refl _)
  have hNow : (before ++ [c]).countP Component.isName < (before ++ [c]).count .parent := by
    by_contra hNot
    refine Nat.not_le.mpr hAfter (largestSurplus_le_iff.mpr fun first hFirst => ?_)
    rcases List.prefix_concat_iff.mp hFirst with rfl | hFirst
    · omega
    · exact hNever first hFirst
  rw [List.count_append, List.countP_append] at hNow
  by_cases hParent : c = .parent
  · subst hParent
    rw [List.count_singleton_self] at hNow
    exact ⟨rfl, hBefore, by omega⟩
  · rw [List.count_singleton, if_neg (by simpa using hParent)] at hNow
    omega

/-- A name is taken away just if the `..` behind it outnumber the names behind it at some
point. -/
theorem isCancelled_iff {behind : List Component} :
    IsCancelled behind ↔ 0 < largestSurplus behind := by
  constructor
  · rintro ⟨between, rest, rfl, hBetween⟩
    by_contra hNever
    rw [Nat.not_lt, largestSurplus_le_iff] at hNever
    have hFirst := hNever (between ++ [.parent]) (by simp)
    rw [List.count_append, List.countP_append, List.count_singleton_self, hBetween.balanced]
      at hFirst
    exact absurd hFirst (by simp [Component.isName])
  · intro hSome
    -- from the end on, to come to the shortest first part that has a surplus
    induction behind using List.reverseRecOn with
    | nil => exact absurd hSome (by decide)
    | append_singleton behind c ih =>
      rcases Nat.eq_zero_or_pos (largestSurplus behind) with hBefore | hBefore
      · obtain ⟨rfl, hCancels⟩ := cancelsOut_of_first hBefore hSome
        exact ⟨behind, [], rfl, hCancels⟩
      · obtain ⟨between, rest, rfl, hBetween⟩ := ih hBefore
        exact ⟨between, rest ++ [c], by simp, hBetween⟩

instance (behind : List Component) : Decidable (IsCancelled behind) :=
  decidable_of_iff _ isCancelled_iff.symm

/-- The names that no later `..` takes away. -/
def keptNames : List Component → List String
  | [] => []
  | .name text :: rest =>
    if IsCancelled rest then keptNames rest else text :: keptNames rest
  | _ :: rest => keptNames rest

theorem keptNames_other {c : Component} (hName : c.isName = false) (cs : List Component) :
    keptNames (c :: cs) = keptNames cs := by
  cases c with
  | name text => exact absurd hName (by simp [Component.isName])
  | root | current | parent => rfl

/-! ## Folding -/

/-- What stands before the names in normal form: a root, or some `..`. -/
def ground (absolute : Bool) (count : Nat) : List Component :=
  if absolute then [.root] else List.replicate count .parent

/-- A `..` that has no name to take is one more before the names, unless there is a root. -/
theorem fold_ground (absolute : Bool) (count : Nat) :
    fold (ground absolute count) .parent = ground absolute (count + 1) := by
  cases absolute with
  | true => rfl
  | false => cases count <;> rfl

theorem reverse_ground (absolute : Bool) (count : Nat) :
    (ground absolute count).reverse = ground absolute count := by
  cases absolute with
  | true => rfl
  | false => exact List.reverse_replicate ..

/-- Folded onto names, last first, components leave the names that they keep themselves in front
of those that their surplus does not take; what is left of the surplus goes to the ground. -/
theorem foldl_fold_ground (absolute : Bool) {cs : List Component} (hRoot : .root ∉ cs)
    (names : List String) (count : Nat) :
    cs.foldl fold (names.map .name ++ ground absolute count) =
      ((keptNames cs).reverse ++ names.drop (largestSurplus cs)).map .name ++
        ground absolute (count + (largestSurplus cs - names.length)) := by
  -- on the components, any names and any ground, as each component changes what the next one finds
  induction cs generalizing names count with
  | nil => simp [keptNames, largestSurplus_nil]
  | cons c cs ih =>
    have ih := ih (fun hMem => hRoot (List.mem_cons_of_mem _ hMem))
    rw [List.foldl_cons]
    cases c with
    | root => exact absurd (List.mem_cons_self ..) hRoot
    | current =>
      rw [fold_current, ih, keptNames_other rfl, largestSurplus_other rfl (by decide)]
    | name text =>
      -- the name is the last one now, and so the first that a surplus of the rest takes
      rw [fold_name, ← List.cons_append, ← List.map_cons, ih, largestSurplus_name, keptNames]
      cases hSurplus : largestSurplus cs with
      | zero =>
        have hKept : ¬ IsCancelled cs := by
          rw [isCancelled_iff, hSurplus]
          exact Nat.lt_irrefl 0
        simp [hKept]
      | succ surplus =>
        have hTaken : IsCancelled cs := isCancelled_iff.mpr (hSurplus ▸ Nat.succ_pos _)
        simp [hTaken]
    | parent =>
      rw [keptNames_other rfl, largestSurplus_parent]
      cases names with
      | nil =>
        -- no name is left to take, so the `..` goes to the ground
        rw [List.map_nil, List.nil_append, fold_ground]
        have hDeeper := ih [] (count + 1)
        rw [List.map_nil, List.nil_append] at hDeeper
        rw [hDeeper]
        simp [Nat.add_assoc, Nat.add_comm 1]
      | cons text names =>
        have hTaken : fold ((text :: names).map .name ++ ground absolute count) .parent =
            names.map .name ++ ground absolute count := rfl
        rw [hTaken, ih]
        simp

/-! ## What a path is folded to -/

/-- A `.` plays no part in what is kept, and neither does the root. -/
theorem kept_components (path : FilePath) :
    largestSurplus path.components = largestSurplus path.parts ∧
      keptNames path.components = keptNames path.parts := by
  rcases path.components_cases with hSame | ⟨lead, rfl | rfl, hSame⟩
  · rw [hSame]
    exact ⟨rfl, rfl⟩
  · rw [hSame]
    exact ⟨largestSurplus_other rfl (by decide) _, rfl⟩
  · rw [hSame]
    exact ⟨largestSurplus_other rfl (by decide) _, rfl⟩

theorem root_notMem_parts (path : FilePath) : .root ∉ path.parts := fun hMem =>
  Component.not_isPart_root (isPart_of_mem_parts hMem)

/-- What the components of a path are folded to. -/
theorem normalComponents_eq_ground (path : FilePath) :
    path.normalComponents = ground path.isAbsolute (largestSurplus path.components) ++
      (keptNames path.components).map .name := by
  have hLead : path.lead.foldl fold [] = ground path.isAbsolute 0 := by
    unfold lead
    cases path.isAbsolute <;> rfl
  have hFolded := foldl_fold_ground path.isAbsolute path.root_notMem_parts [] 0
  rw [List.map_nil, List.nil_append] at hFolded
  rw [normalComponents_eq, List.foldl_append, hLead, hFolded, path.kept_components.1,
    path.kept_components.2, List.reverse_append, reverse_ground]
  simp

/-! ## The components of a normal form -/

theorem components_ofComponents {cs : List Component} (h : ∀ c ∈ cs, c.IsPart) :
    (ofComponents cs).components = cs := by
  by_cases hNil : cs = []
  · subst hNil
    rfl
  · unfold components
    rw [cut_ofComponents h hNil]
    exact filterMap_texts h

theorem components_ofComponents_root {cs : List Component} (h : ∀ c ∈ cs, c.IsPart) :
    (ofComponents (.root :: cs)).components = .root :: cs := by
  by_cases hNil : cs = []
  · subst hNil
    rfl
  · unfold components
    rw [cut_ofComponents_root h hNil]
    exact congrArg (Component.root :: ·) (filterMap_texts h)

/-- A normal form has just the components that it was made of. -/
theorem components_normalize (path : FilePath) :
    path.normalize.components = path.normalComponents := by
  unfold normalize
  rcases path.folded_normalComponents.parts_or_root with hAll | ⟨above, hRoot, hAll⟩
  · exact components_ofComponents fun c hc => hAll c (List.mem_reverse.mpr hc)
  · have hComponents : path.normalComponents = .root :: above.reverse := by
      rw [← List.reverse_reverse path.normalComponents, hRoot]
      simp
    rw [hComponents]
    exact components_ofComponents_root fun c hc => hAll c (List.mem_reverse.mp hc)

/-! ## Main result -/

/-- A normal form has no `.`. It is a root, or as many `..` as ever outnumber the names of the
path, and behind it the names that no later `..` takes away. It is spelled by these components
alone, and it is its own normal form. -/
theorem normalize_canonical (path : FilePath) :
    .current ∉ path.normalize.components ∧
      path.normalize.components =
        (if path.isAbsolute then [.root]
          else List.replicate (largestSurplus path.components) .parent) ++
            (keptNames path.components).map .name ∧
      path.normalize = ofComponents path.normalize.components ∧
      path.normalize.normalize = path.normalize := by
  have hComponents := path.components_normalize.trans path.normalComponents_eq_ground
  refine ⟨?_, hComponents, ?_, path.normalize_normalize⟩
  · rw [hComponents, ground]
    cases path.isAbsolute <;> simp
  · rw [path.components_normalize, normalize]

example : (FilePath.normalize ⟨"a/./b/../../../c/d"⟩).text = "../c/d" := by decide +kernel

end DebtGauge.FilePath
