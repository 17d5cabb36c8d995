import DebtGauge.Duplication.Block
import DebtGauge.Proofs.Duplication.Runs
import DebtGauge.Proofs.FunctionUnit.Ownership

/-!
# What normalised texts are

The text of a node is put together from the slices between its comments. In a tree that is
laid over its source these slices never leave the source and never run backwards, and the
words of the text are the maximal runs that blanks and comments leave over. So what stands in
the gaps of a node does not show in its normalised text, and what stands outside them is all
there, in its order.

Main definitions:

* `SyntaxTree.layout` — a source with the comments of a node as its gaps;
* `SyntaxTree.normalizedText?` — the normalised text with every slice checked;
* `SyntaxTree.SameButGaps` — nodes that differ in their comments and blanks alone.

Main results:

* `SyntaxTree.IsOver.exists_runs` — the words of a node are its maximal runs;
* `Layout.SameButGaps.exists_runs` — equal stretches between gaps have equal runs;
* `SyntaxTree.normalizedText_of_isOver` — what the normalised text of a node is.
-/

namespace DebtGauge

/-! ## Holes -/

namespace Layout

/-- From a position on, the holes are gaps that stand one after the other, and they hold all
gaps that do not end before it. -/
structure HoldGaps (layout : Layout) (cursor stop : Nat) (holes : List Span) : Prop where
  sorted : holes.Pairwise Span.Before
  ahead : ∀ hole ∈ holes, cursor ≤ hole.start ∧ hole.stop ≤ stop
  areGaps : ∀ hole ∈ holes, hole ∈ layout.gaps
  cover : ∀ gap ∈ layout.gaps, gap.stop ≤ cursor ∨ ∃ hole ∈ holes, gap.Within hole

namespace HoldGaps

variable {layout : Layout} {cursor stop : Nat} {hole : Span} {holes : List Span}

theorem isPlain_of_nil (h : layout.HoldGaps cursor stop []) : layout.IsPlain ⟨cursor, stop⟩ := by
  intro gap hGap
  obtain hBehind | ⟨_, hMem, _⟩ := h.cover gap hGap
  · exact Or.inl hBehind
  · exact absurd hMem List.not_mem_nil

/-- The first hole is ahead of the position and does not run backwards. -/
theorem bounds (hOrdered : layout.Ordered) (h : layout.HoldGaps cursor stop (hole :: holes)) :
    cursor ≤ hole.start ∧ hole.start ≤ hole.stop ∧ hole.stop ≤ stop :=
  ⟨(h.ahead hole List.mem_cons_self).1, hOrdered hole (h.areGaps hole List.mem_cons_self),
    (h.ahead hole List.mem_cons_self).2⟩

/-- There is no gap in front of the first hole. -/
theorem isPlain_of_cons (hOrdered : layout.Ordered)
    (h : layout.HoldGaps cursor stop (hole :: holes)) : layout.IsPlain ⟨cursor, hole.start⟩ := by
  intro gap hGap
  obtain hBehind | ⟨found, hMem, hWithin⟩ := h.cover gap hGap
  · exact Or.inl hBehind
  · obtain rfl | hLater := List.mem_cons.mp hMem
    · exact Or.inr hWithin.1
    · -- what lies in a later hole lies behind the first one
      have hNext : hole.stop ≤ found.start := (List.pairwise_cons.mp h.sorted).1 found hLater
      obtain ⟨-, hHole, -⟩ := h.bounds hOrdered
      exact Or.inr (Nat.le_trans hHole (Nat.le_trans hNext hWithin.1))

/-- The other holes hold the gaps behind the first one. -/
theorem tail (hOrdered : layout.Ordered) (h : layout.HoldGaps cursor stop (hole :: holes)) :
    layout.HoldGaps hole.stop stop holes where
  sorted := (List.pairwise_cons.mp h.sorted).2
  ahead found hFound :=
    ⟨(List.pairwise_cons.mp h.sorted).1 found hFound,
      (h.ahead found (List.mem_cons_of_mem _ hFound)).2⟩
  areGaps found hFound := h.areGaps found (List.mem_cons_of_mem _ hFound)
  cover gap hGap := by
    obtain ⟨hStart, hHole, -⟩ := h.bounds hOrdered
    obtain hBehind | ⟨found, hMem, hWithin⟩ := h.cover gap hGap
    · exact Or.inl (Nat.le_trans hBehind (Nat.le_trans hStart hHole))
    · obtain rfl | hLater := List.mem_cons.mp hMem
      · exact Or.inl hWithin.2
      · exact Or.inr ⟨found, hLater, hWithin⟩

end HoldGaps

end Layout

namespace SyntaxTree

section TextWithout

variable {source : Source} {layout : Layout} {cursor stop : Nat} {holes : List SyntaxTree}

/-- The text of `textWithout`, if all its slices are slices of the source. -/
def textWithout? (source : Source) (stop : Nat) : Nat → List SyntaxTree → Option (List Char)
  | cursor, [] => source.slice? cursor stop
  | cursor, hole :: holes => do
    let before ← source.slice? cursor hole.info.start.offset
    let rest ← textWithout? source stop hole.info.stop.offset holes
    return before ++ ' ' :: rest

theorem textWithout_cons (source : Source) (stop cursor : Nat) (hole : SyntaxTree)
    (holes : List SyntaxTree) :
    textWithout source stop cursor (hole :: holes) =
      source.slice cursor hole.span.start ++
        ' ' :: textWithout source stop hole.span.stop holes := rfl

/-- No slice leaves the source or runs backwards. -/
theorem textWithout?_eq_some (hOrdered : layout.Ordered) (hSize : stop ≤ source.chars.size)
    (hle : cursor ≤ stop) (h : layout.HoldGaps cursor stop (holes.map span)) :
    textWithout? source stop cursor holes = some (textWithout source stop cursor holes) := by
  induction holes generalizing cursor with
  | nil => exact Source.slice?_eq_some hle hSize
  | cons hole holes ih =>
    obtain ⟨hStart, hHole, hStop⟩ := h.bounds hOrdered
    have hBefore : source.slice? cursor hole.info.start.offset =
        some (source.slice cursor hole.info.start.offset) :=
      Source.slice?_eq_some hStart (Nat.le_trans hHole (Nat.le_trans hStop hSize))
    have hRest : textWithout? source stop hole.info.stop.offset holes =
        some (textWithout source stop hole.info.stop.offset holes) := ih hStop (h.tail hOrdered)
    rw [textWithout?, hBefore, Option.bind_eq_bind, Option.bind_some, hRest]
    rfl

/-- The words of the text are the maximal runs between the gaps. -/
theorem exists_runs_textWithout (hOrdered : layout.Ordered)
    (hSize : stop ≤ layout.source.chars.size) (hle : cursor ≤ stop)
    (h : layout.HoldGaps cursor stop (holes.map span)) :
    ∃ runs, layout.AreRuns ⟨cursor, stop⟩ runs ∧
      runs.map layout.textOf = Text.words (textWithout layout.source stop cursor holes) := by
  induction holes generalizing cursor with
  | nil => exact Layout.exists_runs_of_isPlain hle hSize h.isPlain_of_nil
  | cons hole holes ih =>
    obtain ⟨hStart, hHole, hStop⟩ := h.bounds hOrdered
    obtain ⟨left, hLeft, hLeftTexts⟩ := Layout.exists_runs_of_isPlain hStart
      (Nat.le_trans hHole (Nat.le_trans hStop hSize)) (h.isPlain_of_cons hOrdered)
    obtain ⟨right, hRight, hRightTexts⟩ := ih hStop (h.tail hOrdered)
    have hStep := Layout.GapStep.gap (h.areGaps hole.span List.mem_cons_self)
    -- the blank that stands for the hole cuts the text as the hole cuts the span
    refine ⟨left ++ right, hLeft.join hStep hRight hStart hHole hStop, ?_⟩
    rw [List.map_append, hLeftTexts, hRightTexts, textWithout_cons,
      Text.words_append_blank Text.isBlank_space]
    rfl

/-- The characters of the text that are not blank are those between the gaps. -/
theorem filter_textWithout (hOrdered : layout.Ordered) (hle : cursor ≤ stop)
    (h : layout.HoldGaps cursor stop (holes.map span)) :
    (textWithout layout.source stop cursor holes).filter (!Text.isBlank ·) =
      layout.solidChars ⟨cursor, stop⟩ := by
  induction holes generalizing cursor with
  | nil => exact (Layout.solidChars_of_isPlain hle h.isPlain_of_nil).symm
  | cons hole holes ih =>
    obtain ⟨hStart, hHole, hStop⟩ := h.bounds hOrdered
    have hGap : layout.solidChars ⟨hole.span.start, hole.span.stop⟩ = [] :=
      Layout.solidChars_of_mem (h.areGaps hole.span List.mem_cons_self)
    -- the span is made of what is before the hole, the hole, and what is behind it
    rw [textWithout_cons, List.filter_append, List.filter_cons_of_neg (by decide),
      ih hStop (h.tail hOrdered),
      ← Layout.solidChars_append layout hStart (Nat.le_trans hHole hStop),
      ← Layout.solidChars_append layout hHole hStop, hGap, List.nil_append,
      Layout.solidChars_of_isPlain hStart (h.isPlain_of_cons hOrdered)]
    rfl

end TextWithout

/-! ## The comments of a node -/

/-- A source whose gaps are the comments at and below a node. -/
def layout (source : Source) (tree : SyntaxTree) : Layout where
  source := source
  gaps := (tree.nodes.filter (·.isComment)).map span

theorem mem_gaps {source : Source} {tree : SyntaxTree} {gap : Span} :
    gap ∈ (tree.layout source).gaps ↔
      ∃ found ∈ tree.nodes, found.isComment = true ∧ found.span = gap := by
  rw [layout, List.mem_map]
  refine exists_congr fun found => ?_
  rw [List.mem_filter, and_assoc]

namespace IsOver

variable {tree : SyntaxTree} {source : Source}

theorem ordered (h : tree.IsOver source) : (tree.layout source).Ordered := by
  intro gap hGap
  obtain ⟨found, hFound, -, rfl⟩ := mem_gaps.mp hGap
  exact (h.nested found hFound).ordered

/-- The comments that a walk gathers hold all comments of a node. -/
theorem holdGaps (h : tree.IsOver source) :
    (tree.layout source).HoldGaps tree.span.start tree.span.stop (tree.comments.map span) where
  sorted := h.pairwise_comments
  ahead gap hGap := by
    obtain ⟨comment, hMem, rfl⟩ := List.mem_map.mp hGap
    exact h.within (mem_nodes_of_mem_comments hMem).1
  areGaps gap hGap := by
    obtain ⟨comment, hMem, rfl⟩ := List.mem_map.mp hGap
    obtain ⟨hNode, hComment⟩ := mem_nodes_of_mem_comments hMem
    exact mem_gaps.mpr ⟨comment, hNode, hComment, rfl⟩
  cover gap hGap := by
    obtain ⟨found, hFound, hComment, rfl⟩ := mem_gaps.mp hGap
    obtain ⟨comment, hMem, hWithin⟩ := h.exists_comment hFound hComment
    exact Or.inr ⟨comment.span, List.mem_map_of_mem hMem, hWithin⟩

end IsOver

/-- The text of a node without its comments. -/
def uncommented (source : Source) (tree : SyntaxTree) : List Char :=
  textWithout source tree.info.stop.offset tree.info.start.offset tree.comments

theorem normalizedText_eq (source : Source) (tree : SyntaxTree) :
    tree.normalizedText source =
      String.ofList (List.intercalate [' '] (Text.words (tree.uncommented source))) := rfl

/-- The normalised text of a node, if all slices it is made of are slices of the source. -/
def normalizedText? (source : Source) (tree : SyntaxTree) : Option String :=
  (textWithout? source tree.info.stop.offset tree.info.start.offset tree.comments).map
    fun text => String.ofList (List.intercalate [' '] (Text.words text))

namespace IsOver

variable {tree : SyntaxTree} {source : Source}

theorem normalizedText?_eq_some (h : tree.IsOver source) :
    tree.normalizedText? source = some (tree.normalizedText source) := by
  have hText : textWithout? source tree.info.stop.offset tree.info.start.offset tree.comments =
      some (tree.uncommented source) :=
    textWithout?_eq_some h.ordered h.inText h.holdsChildren.ordered h.holdGaps
  rw [normalizedText?, hText, Option.map_some, normalizedText_eq]

/-- The words of a node are its maximal runs. -/
theorem exists_runs (h : tree.IsOver source) :
    ∃ runs, (tree.layout source).AreRuns tree.span runs ∧
      runs.map (tree.layout source).textOf = Text.words (tree.uncommented source) :=
  exists_runs_textWithout h.ordered h.inText h.holdsChildren.ordered h.holdGaps

theorem normalizedText_of_areRuns (h : tree.IsOver source) {runs : List Span}
    (hRuns : (tree.layout source).AreRuns tree.span runs) :
    tree.normalizedText source =
      String.ofList (List.intercalate [' '] (runs.map (tree.layout source).textOf)) := by
  obtain ⟨found, hFound, hTexts⟩ := h.exists_runs
  rw [normalizedText_eq, ← hTexts, hFound.unique hRuns]

/-- The characters of a normalised text that are not blank are those of the node that stand
outside its comments. -/
theorem filter_normalizedText (h : tree.IsOver source) :
    (tree.normalizedText source).toList.filter (!Text.isBlank ·) =
      (tree.layout source).solidChars tree.span := by
  rw [normalizedText_eq, String.toList_ofList, Text.filter_intercalate_space, Text.flatten_words,
    List.filter_filter]
  simp only [Bool.and_self]
  exact filter_textWithout h.ordered h.holdsChildren.ordered h.holdGaps

end IsOver

end SyntaxTree

/-! ## Texts that differ in their gaps -/

namespace Layout

/-- Two spans without gaps that have the same text. -/
structure SameText (left right : Layout) (span span' : Span) : Prop where
  ordered : span.start ≤ span.stop
  ordered' : span'.start ≤ span'.stop
  plain : left.IsPlain span
  plain' : right.IsPlain span'
  text : left.textOf span = right.textOf span'

/-- From two positions on, up to `stop` and `stop'`, two texts are the same but for what
stands in their gaps; a gap of one is matched by one of the other, unless it is at the end. -/
inductive SameButGaps (left right : Layout) (stop stop' : Nat) : Nat → Nat → Prop
  | last {a b a' b' : Nat} (same : left.SameText right ⟨a, b⟩ ⟨a', b'⟩)
      (filler : left.Filler b stop) (filler' : right.Filler b' stop') :
      SameButGaps left right stop stop' a a'
  | gap {a b c a' b' c' : Nat} (same : left.SameText right ⟨a, b⟩ ⟨a', b'⟩)
      (gap : left.Gap b c) (gap' : right.Gap b' c')
      (rest : SameButGaps left right stop stop' c c') :
      SameButGaps left right stop stop' a a'

section SameButGaps

variable {left right : Layout} {a a' stop stop' : Nat}

theorem SameText.exists_runs {span span' : Span} (h : left.SameText right span span')
    (hSize : span.stop ≤ left.source.chars.size) (hSize' : span'.stop ≤ right.source.chars.size) :
    ∃ runs runs', left.AreRuns span runs ∧ right.AreRuns span' runs' ∧
      runs.map left.textOf = runs'.map right.textOf := by
  obtain ⟨runs, hRuns, hTexts⟩ := exists_runs_of_isPlain h.ordered hSize h.plain
  obtain ⟨runs', hRuns', hTexts'⟩ := exists_runs_of_isPlain h.ordered' hSize' h.plain'
  exact ⟨runs, runs', hRuns, hRuns', by rw [hTexts, hTexts', h.text]⟩

theorem Gap.le {layout : Layout} (hOrdered : layout.Ordered) {b c : Nat} (h : layout.Gap b c) :
    b ≤ c := Filler.le hOrdered h.to_reflTransGen

theorem SameButGaps.le (hOrdered : left.Ordered) (hOrdered' : right.Ordered)
    (h : left.SameButGaps right stop stop' a a') : a ≤ stop ∧ a' ≤ stop' := by
  induction h with
  | last same filler filler' =>
    exact ⟨Nat.le_trans same.ordered (filler.le hOrdered),
      Nat.le_trans same.ordered' (filler'.le hOrdered')⟩
  | gap same gap gap' _ ih =>
    exact ⟨Nat.le_trans same.ordered (Nat.le_trans (gap.le hOrdered) ih.1),
      Nat.le_trans same.ordered' (Nat.le_trans (gap'.le hOrdered') ih.2)⟩

/-- Texts that are the same but for their gaps have the same runs. -/
theorem SameButGaps.exists_runs (hOrdered : left.Ordered) (hOrdered' : right.Ordered)
    (hSize : stop ≤ left.source.chars.size) (hSize' : stop' ≤ right.source.chars.size)
    (h : left.SameButGaps right stop stop' a a') :
    ∃ runs runs', left.AreRuns ⟨a, stop⟩ runs ∧ right.AreRuns ⟨a', stop'⟩ runs' ∧
      runs.map left.textOf = runs'.map right.textOf := by
  induction h with
  | last same filler filler' =>
    obtain ⟨runs, runs', hRuns, hRuns', hTexts⟩ := same.exists_runs
      (Nat.le_trans (filler.le hOrdered) hSize) (Nat.le_trans (filler'.le hOrdered') hSize')
    exact ⟨runs, runs', hRuns.append_filler hOrdered same.ordered filler,
      hRuns'.append_filler hOrdered' same.ordered' filler', hTexts⟩
  | gap same gap gap' rest ih =>
    obtain ⟨hStop, hStop'⟩ := rest.le hOrdered hOrdered'
    obtain ⟨first, first', hFirst, hFirst', hFirstTexts⟩ := same.exists_runs
      (Nat.le_trans (gap.le hOrdered) (Nat.le_trans hStop hSize))
      (Nat.le_trans (gap'.le hOrdered') (Nat.le_trans hStop' hSize'))
    obtain ⟨later, later', hLater, hLater', hLaterTexts⟩ := ih
    refine ⟨first ++ later, first' ++ later',
      hFirst.join_gap hOrdered same.ordered gap hStop hLater,
      hFirst'.join_gap hOrdered' same.ordered' gap' hStop' hLater', ?_⟩
    rw [List.map_append, List.map_append, hFirstTexts, hLaterTexts]

end SameButGaps

end Layout

namespace SyntaxTree

/-- Two nodes differ in nothing but the text and the number of their comments and the blanks
around them: where one has a gap the other one has a gap, except at the ends. -/
def SameButGaps (source : Source) (tree : SyntaxTree) (source' : Source) (tree' : SyntaxTree) :
    Prop :=
  ∃ a a', (tree.layout source).Filler tree.span.start a ∧
    (tree'.layout source').Filler tree'.span.start a' ∧
    (tree.layout source).SameButGaps (tree'.layout source') tree.span.stop tree'.span.stop a a'

/-- What stands in the gaps of a node does not show in its normalised text. -/
theorem IsOver.normalizedText_congr {source source' : Source} {tree tree' : SyntaxTree}
    (h : tree.IsOver source) (h' : tree'.IsOver source')
    (hSame : SameButGaps source tree source' tree') :
    tree.normalizedText source = tree'.normalizedText source' := by
  obtain ⟨a, a', hFiller, hFiller', hSame⟩ := hSame
  obtain ⟨hStop, hStop'⟩ := hSame.le h.ordered h'.ordered
  obtain ⟨runs, runs', hRuns, hRuns', hTexts⟩ :=
    hSame.exists_runs h.ordered h'.ordered h.inText h'.inText
  rw [h.normalizedText_of_areRuns (hRuns.prepend_filler h.ordered hFiller hStop),
    h'.normalizedText_of_areRuns (hRuns'.prepend_filler h'.ordered hFiller' hStop'), hTexts]

/-- The normalised text of every node of a tree over a source is made of slices of the source.
It is the list of the maximal runs of the node that blanks and comments leave over, one blank
apart; it is the same for all nodes that differ in their gaps alone; and apart from the blanks
it is made of the characters outside blanks and comments, all of them and in their order. -/
theorem normalizedText_of_isOver {source : Source} {tree node : SyntaxTree}
    (hTree : tree.IsOver source) (hNode : node ∈ tree.nodes) :
    node.normalizedText? source = some (node.normalizedText source) ∧
    (∃ runs, (node.layout source).AreRuns node.span runs ∧
      node.normalizedText source =
        String.ofList (List.intercalate [' '] (runs.map (node.layout source).textOf))) ∧
    (∀ (source' : Source) (tree' node' : SyntaxTree), tree'.IsOver source' → node' ∈ tree'.nodes →
      SameButGaps source node source' node' →
      node.normalizedText source = node'.normalizedText source') ∧
    (node.normalizedText source).toList.filter (!Text.isBlank ·) =
      (node.layout source).solidChars node.span := by
  have hOver := hTree.of_mem_nodes hNode
  obtain ⟨runs, hRuns, -⟩ := hOver.exists_runs
  exact ⟨hOver.normalizedText?_eq_some, ⟨runs, hRuns, hOver.normalizedText_of_areRuns hRuns⟩,
    fun _ _ _ hTree' hNode' hSame => hOver.normalizedText_congr (hTree'.of_mem_nodes hNode') hSame,
    hOver.filter_normalizedText⟩

/-- The text of `commentBetween`. -/
def commentBetweenSource : Source := .ofString "p /*x*/ q"

/-- A comment between two names. -/
def commentBetween : SyntaxTree :=
  lineNode "program" none true 0 9
    [lineNode "identifier" none true 0 1 [],
     lineNode "comment" none true 2 7 [],
     lineNode "identifier" none true 8 9 []]

/-- The text of `commentBehind`. -/
def commentBehindSource : Source := .ofString "p\tq //y"

/-- A comment behind two names. -/
def commentBehind : SyntaxTree :=
  lineNode "program" none true 0 7
    [lineNode "identifier" none true 0 1 [],
     lineNode "identifier" none true 2 3 [],
     lineNode "comment" none true 4 7 []]

theorem layout_commentBetween :
    commentBetween.layout commentBetweenSource = ⟨commentBetweenSource, [⟨2, 7⟩]⟩ := by
  rw [layout, nodes_of_leaves (by decide)]
  rfl

theorem layout_commentBehind :
    commentBehind.layout commentBehindSource = ⟨commentBehindSource, [⟨4, 7⟩]⟩ := by
  rw [layout, nodes_of_leaves (by decide)]
  rfl

theorem commentBetween_isOver : commentBetween.IsOver commentBetweenSource :=
  isOver_of_leaves (by decide) (by decide) (by decide)

theorem commentBehind_isOver : commentBehind.IsOver commentBehindSource :=
  isOver_of_leaves (by decide) (by decide) (by decide)

theorem sameButGaps_comment :
    SameButGaps commentBetweenSource commentBetween commentBehindSource commentBehind := by
  rw [SameButGaps, layout_commentBetween, layout_commentBehind]
  let left : Layout := ⟨commentBetweenSource, [⟨2, 7⟩]⟩
  let right : Layout := ⟨commentBehindSource, [⟨4, 7⟩]⟩
  have first : left.SameText right ⟨0, 1⟩ ⟨0, 1⟩ := by constructor <;> decide
  have last : left.SameText right ⟨8, 9⟩ ⟨2, 3⟩ := by constructor <;> decide
  have comment : left.GapStep 2 7 := @Layout.GapStep.gap left ⟨2, 7⟩ (List.mem_singleton_self _)
  have comment' : right.GapStep 4 7 := @Layout.GapStep.gap right ⟨4, 7⟩ (List.mem_singleton_self _)
  have hBetween : left.Gap 1 8 :=
    .tail (.tail (.single (.blank (c := ' ') rfl (by decide))) comment)
      (.blank (c := ' ') rfl (by decide))
  have hTab : right.Gap 1 2 := .single (.blank (c := '\t') rfl (by decide))
  have hEnd : right.Filler 3 7 := .tail (.single (.blank (c := ' ') rfl (by decide))) comment'
  exact ⟨0, 0, .refl, .refl, .gap first hBetween hTab (.last last .refl hEnd)⟩

theorem normalizedText_of_isOver_commentBetween :
    commentBetween.IsOver commentBetweenSource ∧
    SameButGaps commentBetweenSource commentBetween commentBehindSource commentBehind ∧
    commentBetween.normalizedText? commentBetweenSource =
      some (commentBehind.normalizedText commentBehindSource) ∧
    (commentBetween.normalizedText commentBetweenSource).toList.filter (!Text.isBlank ·) =
      ['p', 'q'] := by
  obtain ⟨hSlices, -, hSame, hChars⟩ :=
    normalizedText_of_isOver commentBetween_isOver (self_mem_nodes commentBetween)
  refine ⟨commentBetween_isOver, sameButGaps_comment, ?_, ?_⟩
  · rw [hSlices, hSame _ _ _ commentBehind_isOver (self_mem_nodes _) sameButGaps_comment]
  · rw [hChars, layout_commentBetween]
    rfl

end SyntaxTree

end DebtGauge
