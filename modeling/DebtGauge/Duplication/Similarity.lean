import DebtGauge.Duplication.Block
import DebtGauge.Text.EditDistance

/-!
# Similarity of code blocks

One less the edit distance per character of the longer block. The distance is at least
the difference of the lengths, so blocks of very different lengths need no distance.

Main definitions:

* `CodeBlock.similarity` — the similarity of two blocks;
* `CodeBlock.isDuplicate` — whether they are near duplicates.
-/

namespace DebtGauge.CodeBlock

/-- Blocks that are at least so similar are near duplicates. -/
def threshold : Float := 0.85

/-- The similarity of two blocks; two empty ones are equal. -/
def similarity (a b : CodeBlock) : Float :=
  let longest := max a.length b.length
  if longest = 0 then 1.0
  else
    let ratio := Float.ofNat (min a.length b.length) / Float.ofNat longest
    if ratio < threshold then ratio
    else if a.tokens = b.tokens then 1.0
    else
      let distance := Text.editDistance a.tokens.toList b.tokens.toList
      1.0 - Float.ofNat distance / Float.ofNat longest

/-- Whether two blocks are near duplicates. -/
def isDuplicate (a b : CodeBlock) : Bool :=
  threshold ≤ a.similarity b

end DebtGauge.CodeBlock
