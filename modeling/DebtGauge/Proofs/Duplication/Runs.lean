import DebtGauge.Proofs.SyntaxTree.Span
import DebtGauge.Proofs.Text.Words
import Mathlib.Data.List.Basic
import Mathlib.Logic.Relation

/-!
# Runs between gaps

A layout is a source with spans in it, the gaps, that do not count. What a run is can then be
said without saying how runs are found: characters side by side of which none is blank, with
no gap among them. A blank or a gap ends every run, so the maximal runs on its two sides are
all there are.

Main definitions:

* `Layout.IsMaximalRun`, `Layout.AreRuns` — the maximal runs of a span;
* `Layout.Gap`, `Layout.Filler` — a stretch of blanks and gaps;
* `Layout.solidChars` — the characters that are neither blank nor in a gap.

Main results:

* `Layout.AreRuns.unique` — a span has one list of maximal runs;
* `Layout.AreRuns.join` — the runs on both sides of a blank or a gap;
* `Layout.exists_runs_of_isPlain` — the runs of a span without gaps are the words of its text.
-/

namespace DebtGauge

/-! ## Slices -/

namespace Source

theorem slice_self (source : Source) (position : Nat) : source.slice position position = [] := by
  simp [slice]

theorem slice_append (source : Source) {a b c : Nat} (hab : a ≤ b) (hbc : b ≤ c) :
    source.slice a b ++ source.slice b c = source.slice a c := by
  rw [slice, slice, slice, ← Array.toList_append, Array.extract_append_extract,
    Nat.min_eq_left hab, Nat.max_eq_right hbc]

theorem slice_succ (source : Source) {position : Nat} {c : Char}
    (h : source.chars[position]? = some c) : source.slice position (position + 1) = [c] := by
  obtain ⟨hLt, rfl⟩ := Array.getElem?_eq_some_iff.mp h
  rw [slice, Array.extract_succ_right (Nat.lt_succ_self _) hLt, Array.toList_push]
  simp

/-- A slice holds the characters at its positions. -/
theorem slice_eq_filterMap (source : Source) (start length : Nat) :
    source.slice start (start + length) =
      (List.range' start length).filterMap (source.chars[·]?) := by
  induction length with
  | zero => exact slice_self source start
  | succ length ih =>
    rw [List.range'_concat, Nat.one_mul, List.filterMap_append, ← ih, ← Nat.add_assoc,
      ← slice_append source (Nat.le_add_right start length) (Nat.le_add_right _ 1)]
    congr 1
    cases hChar : source.chars[start + length]? with
    | some c =>
      rw [slice_succ source hChar, List.filterMap_cons_some hChar, List.filterMap_nil]
    | none =>
      have hSize := Array.getElem?_eq_none_iff.mp hChar
      rw [List.filterMap_cons_none hChar, List.filterMap_nil, slice,
        Array.extract_empty_of_size_le_start hSize]

theorem slice_eq_filterMap_sub (source : Source) {start stop : Nat} (h : start ≤ stop) :
    source.slice start stop =
      (List.range' start (stop - start)).filterMap (source.chars[·]?) := by
  rw [← slice_eq_filterMap, Nat.add_sub_cancel' h]

theorem slice?_eq_some {source : Source} {start stop : Nat} (hOrder : start ≤ stop)
    (hSize : stop ≤ source.chars.size) :
    source.slice? start stop = some (source.slice start stop) :=
  if_pos ⟨hOrder, hSize⟩

theorem exists_mem_slice {source : Source} {start stop position : Nat} (hStart : start ≤ position)
    (hStop : position < stop) (hSize : stop ≤ source.chars.size) :
    ∃ c ∈ source.slice start stop, source.chars[position]? = some c := by
  have hChar := Array.getElem?_eq_getElem (Nat.lt_of_lt_of_le hStop hSize)
  refine ⟨_, ?_, hChar⟩
  rw [slice_eq_filterMap_sub source (Nat.le_of_lt (Nat.lt_of_le_of_lt hStart hStop)),
    List.mem_filterMap]
  exact ⟨position, List.mem_range'_1.mpr ⟨hStart, by omega⟩, hChar⟩

theorem exists_of_mem_slice {source : Source} {start stop : Nat} {c : Char} (hle : start ≤ stop)
    (h : c ∈ source.slice start stop) :
    ∃ position, start ≤ position ∧ position < stop ∧ source.chars[position]? = some c := by
  rw [slice_eq_filterMap_sub source hle, List.mem_filterMap] at h
  obtain ⟨position, hMem, hChar⟩ := h
  rw [List.mem_range'_1] at hMem
  exact ⟨position, hMem.1, by omega, hChar⟩

end Source

/-! ## Runs -/

/-- A source with the spans in it that do not count. -/
structure Layout where
  source : Source
  gaps : List Span

namespace Layout

variable {layout : Layout}

section Definitions

variable (layout : Layout)

/-- The characters of a span. -/
def textOf (span : Span) : List Char := layout.source.slice span.start span.stop

/-- No gap reaches into a span or stands between two of its characters. -/
def IsPlain (span : Span) : Prop :=
  ∀ gap ∈ layout.gaps, gap.stop ≤ span.start ∨ span.stop ≤ gap.start

/-- Characters side by side of which none is blank, with no gap among them. -/
structure IsRun (outer run : Span) : Prop where
  nonempty : run.start < run.stop
  within : run.Within outer
  solid : ∀ position, run.start ≤ position → position < run.stop →
    ∃ c, layout.source.chars[position]? = some c ∧ Text.isBlank c = false
  plain : layout.IsPlain run

/-- A run that is no part of a longer one. -/
structure IsMaximalRun (outer run : Span) : Prop extends layout.IsRun outer run where
  maximal : ∀ other, layout.IsRun outer other → run.Within other → other = run

/-- The list of the maximal runs of a span, from left to right. -/
structure AreRuns (outer : Span) (runs : List Span) : Prop where
  sorted : runs.Pairwise Span.Before
  mem_iff : ∀ run, run ∈ runs ↔ layout.IsMaximalRun outer run

/-- From a position over a blank or over a gap. -/
inductive GapStep : Nat → Nat → Prop
  | blank {position : Nat} {c : Char} (hChar : layout.source.chars[position]? = some c)
      (hBlank : Text.isBlank c = true) : GapStep position (position + 1)
  | gap {gap : Span} (hMem : gap ∈ layout.gaps) : GapStep gap.start gap.stop

/-- A stretch of blanks and gaps, at least one. -/
def Gap : Nat → Nat → Prop := Relation.TransGen layout.GapStep

/-- A stretch of blanks and gaps, or nothing. -/
def Filler : Nat → Nat → Prop := Relation.ReflTransGen layout.GapStep

/-- The gaps of a layout do not run backwards. -/
def Ordered : Prop := ∀ gap ∈ layout.gaps, gap.start ≤ gap.stop

/-- Whether a position lies outside all gaps. -/
def isOutside (position : Nat) : Bool :=
  layout.gaps.all fun gap => position < gap.start || gap.stop ≤ position

/-- The characters of a span that are not blank and lie outside all gaps. -/
def solidChars (span : Span) : List Char :=
  (((List.range' span.start (span.stop - span.start)).filter layout.isOutside).filterMap
    (layout.source.chars[·]?)).filter (!Text.isBlank ·)

end Definitions

instance (layout : Layout) (span : Span) : Decidable (layout.IsPlain span) :=
  inferInstanceAs (Decidable (∀ gap ∈ layout.gaps, _))

theorem IsRun.of_within {outer inner run : Span} (h : layout.IsRun outer run)
    (hWithin : run.Within inner) : layout.IsRun inner run :=
  { h with within := hWithin }

/-- No run goes over a blank or a gap. -/
theorem IsRun.avoids {outer run : Span} {a b : Nat} (h : layout.IsRun outer run)
    (hStep : layout.GapStep a b) : run.stop ≤ a ∨ b ≤ run.start := by
  cases hStep with
  | blank hChar hBlank =>
    -- otherwise the blank is a character of the run
    by_contra hOver
    obtain ⟨c, hSolid, hNotBlank⟩ := h.solid a (by omega) (by omega)
    obtain rfl := Option.some.inj (hChar.symm.trans hSolid)
    rw [hBlank] at hNotBlank
    exact absurd hNotBlank (by decide)
  | gap hMem => exact (h.plain _ hMem).symm

/-- Of two runs, one before the other, neither is part of the other. -/
theorem IsRun.not_within {outer outer' left right : Span} (hLeft : layout.IsRun outer left)
    (hRight : layout.IsRun outer' right) (hBefore : left.Before right) :
    ¬ left.Within right ∧ ¬ right.Within left := by
  have hLeft := hLeft.nonempty
  have hRight := hRight.nonempty
  rw [Span.Before] at hBefore
  constructor
  · rintro ⟨hStart, -⟩
    omega
  · rintro ⟨-, hStop⟩
    omega

/-! ## The list of the maximal runs -/

/-- There is nothing to be found in an empty span. -/
theorem areRuns_nil (layout : Layout) (position : Nat) :
    layout.AreRuns ⟨position, position⟩ [] where
  sorted := List.Pairwise.nil
  mem_iff run := by
    refine ⟨fun hMem => absurd hMem List.not_mem_nil, fun hRun => ?_⟩
    have hLt := hRun.nonempty
    have hStart := hRun.within.1
    have hStop := hRun.within.2
    simp only at hStart hStop
    omega

/-- A span has one list of maximal runs. -/
theorem AreRuns.unique {outer : Span} {runs runs' : List Span} (h : layout.AreRuns outer runs)
    (h' : layout.AreRuns outer runs') : runs = runs' := by
  -- two runs, one before the other, differ
  have nodup {runs : List Span} (h : layout.AreRuns outer runs) : runs.Nodup := by
    refine h.sorted.imp_of_mem ?_
    rintro a b ha _ hBefore rfl
    exact absurd ((h.mem_iff a).mp ha).nonempty (Nat.not_lt.mpr hBefore)
  have hPerm : runs.Perm runs' := (List.perm_ext_iff_of_nodup (nodup h) (nodup h')).mpr
    fun run => (h.mem_iff run).trans (h'.mem_iff run).symm
  refine hPerm.eq_of_pairwise ?_ h.sorted h'.sorted
  intro a b ha hb hab hba
  have hLeft := ((h.mem_iff a).mp ha).nonempty
  have hRight := ((h'.mem_iff b).mp hb).nonempty
  rw [Span.Before] at hab hba
  omega

section Join

variable {a b b' c : Nat}

theorem isRun_iff_of_gapStep (hStep : layout.GapStep b b') (hab : a ≤ b) (hbb' : b ≤ b')
    (hbc : b' ≤ c) {run : Span} :
    layout.IsRun ⟨a, c⟩ run ↔ layout.IsRun ⟨a, b⟩ run ∨ layout.IsRun ⟨b', c⟩ run := by
  constructor
  · intro hRun
    obtain hLeft | hRight := hRun.avoids hStep
    · exact Or.inl (hRun.of_within ⟨hRun.within.1, hLeft⟩)
    · exact Or.inr (hRun.of_within ⟨hRight, hRun.within.2⟩)
  · rintro (hRun | hRun)
    · exact hRun.of_within (hRun.within.trans ⟨Nat.le_refl a, Nat.le_trans hbb' hbc⟩)
    · exact hRun.of_within (hRun.within.trans ⟨Nat.le_trans hab hbb', Nat.le_refl c⟩)

/-- A blank or a gap keeps the runs on its two sides apart. -/
theorem isMaximalRun_iff_of_gapStep (hStep : layout.GapStep b b') (hab : a ≤ b) (hbb' : b ≤ b')
    (hbc : b' ≤ c) {run : Span} :
    layout.IsMaximalRun ⟨a, c⟩ run ↔
      layout.IsMaximalRun ⟨a, b⟩ run ∨ layout.IsMaximalRun ⟨b', c⟩ run := by
  have isRun_iff {run : Span} :
      layout.IsRun ⟨a, c⟩ run ↔ layout.IsRun ⟨a, b⟩ run ∨ layout.IsRun ⟨b', c⟩ run :=
    isRun_iff_of_gapStep hStep hab hbb' hbc
  have before {left right : Span} (hLeft : layout.IsRun ⟨a, b⟩ left)
      (hRight : layout.IsRun ⟨b', c⟩ right) : left.Before right :=
    Nat.le_trans hLeft.within.2 (Nat.le_trans hbb' hRight.within.1)
  constructor
  · -- a run on one side is maximal among those of that side
    intro hMax
    obtain hRun | hRun := isRun_iff.mp hMax.toIsRun
    · exact Or.inl ⟨hRun, fun other hOther => hMax.maximal other (isRun_iff.mpr (Or.inl hOther))⟩
    · exact Or.inr ⟨hRun, fun other hOther => hMax.maximal other (isRun_iff.mpr (Or.inr hOther))⟩
  · -- a run that contains it is on the same side
    rintro (hMax | hMax)
    · refine ⟨isRun_iff.mpr (Or.inl hMax.toIsRun), fun other hOther hWithin => ?_⟩
      obtain hOther | hOther := isRun_iff.mp hOther
      · exact hMax.maximal other hOther hWithin
      · exact absurd hWithin (hMax.not_within hOther (before hMax.toIsRun hOther)).1
    · refine ⟨isRun_iff.mpr (Or.inr hMax.toIsRun), fun other hOther hWithin => ?_⟩
      obtain hOther | hOther := isRun_iff.mp hOther
      · exact absurd hWithin (hOther.not_within hMax.toIsRun (before hOther hMax.toIsRun)).2
      · exact hMax.maximal other hOther hWithin

/-- The runs on both sides of a blank or a gap are all there are. -/
theorem AreRuns.join {left right : List Span} (hLeft : layout.AreRuns ⟨a, b⟩ left)
    (hStep : layout.GapStep b b') (hRight : layout.AreRuns ⟨b', c⟩ right) (hab : a ≤ b)
    (hbb' : b ≤ b') (hbc : b' ≤ c) : layout.AreRuns ⟨a, c⟩ (left ++ right) where
  sorted := by
    refine List.pairwise_append.mpr ⟨hLeft.sorted, hRight.sorted, fun l hl r hr => ?_⟩
    have hStop := ((hLeft.mem_iff l).mp hl).within.2
    have hStart := ((hRight.mem_iff r).mp hr).within.1
    exact Nat.le_trans hStop (Nat.le_trans hbb' hStart)
  mem_iff run := by
    rw [List.mem_append, hLeft.mem_iff, hRight.mem_iff,
      isMaximalRun_iff_of_gapStep hStep hab hbb' hbc]

end Join

/-! ## Stretches of blanks and gaps -/

section Gaps

variable {a b c : Nat} {runs : List Span}

theorem GapStep.le (hOrdered : layout.Ordered) (h : layout.GapStep a b) : a ≤ b := by
  cases h with
  | blank => exact Nat.le_succ a
  | gap hMem => exact hOrdered _ hMem

theorem Filler.le (hOrdered : layout.Ordered) (h : layout.Filler a b) : a ≤ b := by
  induction h with
  | refl => exact Nat.le_refl a
  | tail _ hStep ih => exact Nat.le_trans ih (hStep.le hOrdered)

/-- A filler behind a span adds no run to it. -/
theorem AreRuns.append_filler (hOrdered : layout.Ordered) (hab : a ≤ b)
    (hRuns : layout.AreRuns ⟨a, b⟩ runs) (hFiller : layout.Filler b c) :
    layout.AreRuns ⟨a, c⟩ runs := by
  induction hFiller with
  | refl => exact hRuns
  | @tail m c hFiller hStep ih =>
    -- behind the last step there is an empty span
    have hJoined := ih.join hStep (areRuns_nil layout c)
      (Nat.le_trans hab (Filler.le hOrdered hFiller)) (hStep.le hOrdered) (Nat.le_refl c)
    rwa [List.append_nil] at hJoined

/-- A filler in front of a span adds no run to it. -/
theorem AreRuns.prepend_filler (hOrdered : layout.Ordered) (hFiller : layout.Filler a b)
    (hbc : b ≤ c) (hRuns : layout.AreRuns ⟨b, c⟩ runs) : layout.AreRuns ⟨a, c⟩ runs := by
  induction hFiller using Relation.ReflTransGen.head_induction_on with
  | refl => exact hRuns
  | @head a m hStep hFiller ih =>
    exact (areRuns_nil layout a).join hStep ih (Nat.le_refl a) (hStep.le hOrdered)
      (Nat.le_trans (Filler.le hOrdered hFiller) hbc)

/-- A gap keeps the runs on its two sides apart, however long it is. -/
theorem AreRuns.join_gap {stop : Nat} {left right : List Span} (hOrdered : layout.Ordered)
    (hab : a ≤ b) (hLeft : layout.AreRuns ⟨a, b⟩ left) (hGap : layout.Gap b c) (hStop : c ≤ stop)
    (hRight : layout.AreRuns ⟨c, stop⟩ right) : layout.AreRuns ⟨a, stop⟩ (left ++ right) := by
  -- its last step is a blank or a gap, and what is before that is a filler
  obtain ⟨m, hFiller, hStep⟩ := Relation.TransGen.tail'_iff.mp hGap
  have ham := Nat.le_trans hab (Filler.le hOrdered hFiller)
  exact (hLeft.append_filler hOrdered hab hFiller).join hStep hRight ham (hStep.le hOrdered) hStop

end Gaps

/-! ## Spans without gaps -/

theorem IsPlain.of_within {outer inner : Span} (h : layout.IsPlain outer)
    (hWithin : inner.Within outer) : layout.IsPlain inner := fun gap hGap =>
  (h gap hGap).imp (Nat.le_trans · hWithin.1) (Nat.le_trans hWithin.2 ·)

/-- A span without gaps and blanks is a run, unless it is empty. -/
theorem isRun_of_solid {a b : Nat} (hLt : a < b) (hb : b ≤ layout.source.chars.size)
    (hPlain : layout.IsPlain ⟨a, b⟩)
    (hSolid : ∀ c ∈ layout.textOf ⟨a, b⟩, Text.isBlank c = false) :
    layout.IsRun ⟨a, b⟩ ⟨a, b⟩ where
  nonempty := hLt
  within := Span.Within.refl _
  solid position hStart hStop := by
    obtain ⟨c, hMem, hChar⟩ := Source.exists_mem_slice hStart hStop hb
    exact ⟨c, hChar, hSolid c hMem⟩
  plain := hPlain

/-- A span that is a run is its only maximal one. -/
theorem areRuns_singleton {span : Span} (h : layout.IsRun span span) :
    layout.AreRuns span [span] where
  sorted := List.pairwise_singleton ..
  mem_iff run := by
    rw [List.mem_singleton]
    constructor
    · rintro rfl
      exact ⟨h, fun other hOther hWithin => hOther.within.antisymm hWithin⟩
    · intro hMax
      exact (hMax.maximal span h hMax.within).symm

theorem exists_runs_of_solid {a b : Nat} (hab : a ≤ b) (hb : b ≤ layout.source.chars.size)
    (hPlain : layout.IsPlain ⟨a, b⟩)
    (hSolid : ∀ c ∈ layout.textOf ⟨a, b⟩, Text.isBlank c = false) :
    ∃ runs, layout.AreRuns ⟨a, b⟩ runs ∧
      runs.map layout.textOf = Text.words (layout.textOf ⟨a, b⟩) := by
  obtain rfl | hLt := Nat.eq_or_lt_of_le hab
  · -- an empty text has no words
    refine ⟨[], areRuns_nil layout a, ?_⟩
    rw [textOf, Source.slice_self]
    rfl
  · obtain ⟨c, hMem, -⟩ := Source.exists_mem_slice (Nat.le_refl a) hLt hb
    refine ⟨[⟨a, b⟩], areRuns_singleton (isRun_of_solid hLt hb hPlain hSolid), ?_⟩
    rw [Text.words_eq_singleton hSolid (List.ne_nil_of_mem hMem)]
    rfl

/-- The runs of a span without gaps are the words of its text. -/
theorem exists_runs_of_isPlain {a b : Nat} (hab : a ≤ b) (hb : b ≤ layout.source.chars.size)
    (hPlain : layout.IsPlain ⟨a, b⟩) :
    ∃ runs, layout.AreRuns ⟨a, b⟩ runs ∧
      runs.map layout.textOf = Text.words (layout.textOf ⟨a, b⟩) := by
  by_cases hBlank : ∃ c ∈ layout.textOf ⟨a, b⟩, Text.isBlank c = true
  · -- the span is cut at a blank into two shorter ones
    obtain ⟨c, hMem, hBlank⟩ := hBlank
    obtain ⟨position, hStart, hStop, hChar⟩ := Source.exists_of_mem_slice hab hMem
    have hDecreasing : position - a < b - a ∧ b - (position + 1) < b - a := by omega
    obtain ⟨left, hLeft, hLeftTexts⟩ := exists_runs_of_isPlain (a := a) (b := position) hStart
      (by omega) (hPlain.of_within ⟨Nat.le_refl a, Nat.le_of_lt hStop⟩)
    obtain ⟨right, hRight, hRightTexts⟩ := exists_runs_of_isPlain (a := position + 1) (b := b) hStop
      hb (hPlain.of_within ⟨Nat.le_succ_of_le hStart, Nat.le_refl b⟩)
    refine ⟨left ++ right, hLeft.join (.blank hChar hBlank) hRight hStart (Nat.le_succ _) hStop, ?_⟩
    rw [List.map_append, hLeftTexts, hRightTexts, ← Text.words_append_blank hBlank]
    congr 1
    rw [textOf, textOf, textOf, ← List.singleton_append, ← Source.slice_succ _ hChar,
      Source.slice_append _ (Nat.le_succ _) hStop,
      Source.slice_append _ hStart (Nat.le_of_lt hStop)]
  · refine exists_runs_of_solid hab hb hPlain fun c hMem => ?_
    exact Bool.eq_false_iff.mpr fun hc => hBlank ⟨c, hMem, hc⟩
termination_by b - a

/-! ## Characters outside gaps -/

theorem solidChars_append (layout : Layout) {a b c : Nat} (hab : a ≤ b) (hbc : b ≤ c) :
    layout.solidChars ⟨a, b⟩ ++ layout.solidChars ⟨b, c⟩ = layout.solidChars ⟨a, c⟩ := by
  have hRange : List.range' a (b - a) ++ List.range' b (c - b) = List.range' a (c - a) := by
    have hAppend := List.range'_append_1 (s := a) (m := b - a) (n := c - b)
    rwa [Nat.add_sub_cancel' hab, Nat.add_comm, Nat.sub_add_sub_cancel hbc hab] at hAppend
  rw [solidChars, solidChars, solidChars, ← hRange, List.filter_append, List.filterMap_append,
    List.filter_append]

theorem solidChars_of_isPlain {a b : Nat} (hab : a ≤ b) (hPlain : layout.IsPlain ⟨a, b⟩) :
    layout.solidChars ⟨a, b⟩ = (layout.textOf ⟨a, b⟩).filter (!Text.isBlank ·) := by
  have hOutside : ∀ position ∈ List.range' a (b - a), layout.isOutside position = true := by
    intro position hMem
    obtain ⟨hStart, hStop⟩ := List.mem_range'_1.mp hMem
    refine List.all_eq_true.mpr fun gap hGap => ?_
    have hApart : gap.stop ≤ a ∨ b ≤ gap.start := hPlain gap hGap
    rw [Bool.or_eq_true, decide_eq_true_eq, decide_eq_true_eq]
    omega
  rw [solidChars, textOf, Source.slice_eq_filterMap_sub _ hab, List.filter_eq_self.mpr hOutside]

theorem solidChars_of_mem {gap : Span} (hMem : gap ∈ layout.gaps) : layout.solidChars gap = [] := by
  have hInside : ∀ position ∈ List.range' gap.start (gap.stop - gap.start),
      ¬ layout.isOutside position = true := by
    intro position hPosition hOutside
    rw [List.mem_range'_1] at hPosition
    have hApart := List.all_eq_true.mp hOutside gap hMem
    rw [Bool.or_eq_true, decide_eq_true_eq, decide_eq_true_eq] at hApart
    omega
  rw [solidChars, List.filter_eq_nil_iff.mpr hInside]
  rfl

end Layout

end DebtGauge
