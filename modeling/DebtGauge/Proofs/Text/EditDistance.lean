import DebtGauge.Text.EditDistance
import Mathlib.Data.List.Basic

/-!
# What the rows of an edit distance hold

The distance is computed row by row. Read as a recursion over the last characters of the
two texts, it is the Levenshtein distance, whose three cases change places when the texts
do. So the distance does not depend on which text comes first.

Main definitions and results:

* `levenshtein` — the recursion, over texts that are read backwards;
* `editDistance_eq_levenshtein` — the rows compute it;
* `editDistance_comm` — the distance is symmetric.
-/

namespace DebtGauge.Text

/-- The Levenshtein distance of two texts that are given backwards. -/
def levenshtein : List Char → List Char → Nat
  | [], ds => ds.length
  | cs, [] => cs.length
  | c :: cs, d :: ds =>
    leastOf (levenshtein cs (d :: ds) + 1) (levenshtein (c :: cs) ds + 1)
      (levenshtein cs ds + if c = d then 0 else 1)
termination_by cs ds => cs.length + ds.length

@[simp]
theorem levenshtein_nil_left (ds : List Char) : levenshtein [] ds = ds.length := by
  rw [levenshtein]

@[simp]
theorem levenshtein_nil_right (cs : List Char) : levenshtein cs [] = cs.length := by
  cases cs <;> simp [levenshtein]

theorem levenshtein_cons_cons (c d : Char) (cs ds : List Char) :
    levenshtein (c :: cs) (d :: ds) =
      leastOf (levenshtein cs (d :: ds) + 1) (levenshtein (c :: cs) ds + 1)
        (levenshtein cs ds + if c = d then 0 else 1) := by
  rw [levenshtein]

theorem leastOf_swap (a b c : Nat) : leastOf a b c = leastOf b a c := by
  unfold leastOf
  omega

theorem levenshtein_comm (cs ds : List Char) : levenshtein cs ds = levenshtein ds cs := by
  -- one induction in the other, as the recursion shortens either text or both
  induction cs generalizing ds with
  | nil => simp
  | cons c cs ih =>
    induction ds with
    | nil => simp
    | cons d ds ihInner =>
      -- an insertion into one text is a deletion from the other
      rw [levenshtein_cons_cons, levenshtein_cons_cons, leastOf_swap, ih, ihInner, ih ds]
      simp only [eq_comm]

/-! ## Rows -/

/-- The distances of `cs` from the beginnings of a text that go beyond the beginning
`seen`, which is given backwards as `cs` is. -/
def distancesBeyond (cs : List Char) : List Char → List Char → List Nat
  | _, [] => []
  | seen, d :: ds => levenshtein cs (d :: seen) :: distancesBeyond cs (d :: seen) ds

/-- The row of `cs`: its distances from all beginnings of a text. -/
def distances (cs text : List Char) : List Nat :=
  levenshtein cs [] :: distancesBeyond cs [] text

theorem extendRow_distancesBeyond (c : Char) (cs seen ds : List Char) :
    extendRow c (levenshtein cs seen) (levenshtein (c :: cs) seen) ds
      (distancesBeyond cs seen ds) = distancesBeyond (c :: cs) seen ds := by
  induction ds generalizing seen with
  | nil => rfl
  | cons d ds ih =>
    -- the new entry is made of its left neighbour and of the two entries above
    rw [distancesBeyond, distancesBeyond, extendRow, ← levenshtein_cons_cons, ih]

theorem nextRow_distances (text cs : List Char) (c : Char) :
    nextRow text (distances cs text) c = distances (c :: cs) text := by
  have hFirst : levenshtein cs [] + 1 = levenshtein (c :: cs) [] := by simp
  show (levenshtein cs [] + 1) :: extendRow c (levenshtein cs []) (levenshtein cs [] + 1) text
    (distancesBeyond cs [] text) = distances (c :: cs) text
  rw [hFirst, extendRow_distancesBeyond, distances]

/-- After a beginning of the first text, the row is the one of this beginning. -/
theorem foldl_nextRow (text cs rest : List Char) :
    rest.foldl (nextRow text) (distances cs text) = distances (rest.reverse ++ cs) text := by
  induction rest generalizing cs with
  | nil => rfl
  | cons c rest ih =>
    rw [List.foldl_cons, nextRow_distances, ih, List.reverse_cons, List.append_assoc,
      List.singleton_append]

theorem distancesBeyond_nil (seen ds : List Char) :
    distancesBeyond [] seen ds = (List.range ds.length).map (seen.length + 1 + ·) := by
  induction ds generalizing seen with
  | nil => rfl
  | cons d ds ih =>
    rw [distancesBeyond, ih, levenshtein_nil_left, List.length_cons, List.length_cons,
      List.range_succ_eq_map, List.map_cons, List.map_map]
    congr 1
    refine List.map_congr_left fun k _ => ?_
    simp only [Function.comp_apply]
    omega

/-- The first row counts the characters of each beginning. -/
theorem distances_nil (text : List Char) : distances [] text = List.range (text.length + 1) := by
  rw [distances, distancesBeyond_nil, levenshtein_nil_left, List.range_succ_eq_map]
  congr 1
  refine List.map_congr_left fun k _ => ?_
  simp only [List.length_nil]
  omega

theorem getLast?_distancesBeyond (cs seen ds : List Char) :
    (levenshtein cs seen :: distancesBeyond cs seen ds).getLast? =
      some (levenshtein cs (ds.reverse ++ seen)) := by
  induction ds generalizing seen with
  | nil => rfl
  | cons d ds ih =>
    rw [distancesBeyond, List.getLast?_cons_cons, ih, List.reverse_cons, List.append_assoc,
      List.singleton_append]

/-! ## The distance -/

theorem editDistance_eq_levenshtein (a b : List Char) :
    editDistance a b = levenshtein a.reverse b.reverse := by
  have hLast : (distances a.reverse b).getLast? = some (levenshtein a.reverse b.reverse) := by
    rw [distances, getLast?_distancesBeyond, List.append_nil]
  rw [editDistance, ← distances_nil, foldl_nextRow, List.append_nil, hLast, Option.getD_some]

theorem editDistance_comm (a b : List Char) : editDistance a b = editDistance b a := by
  rw [editDistance_eq_levenshtein, editDistance_eq_levenshtein, levenshtein_comm]

end DebtGauge.Text
