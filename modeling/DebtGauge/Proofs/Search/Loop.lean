import DebtGauge.ImportGraph.Search
import Mathlib.Data.List.Chain
import Mathlib.Logic.Relation

/-!
# Loops and components

What a loop of a graph is, apart from any search for it, and how loops relate to the
components of the graph: two vertices share a component if each can be reached from the
other, and all vertices of a loop share one.

Main results:

* `IsLoop.reaches` — a loop leads from each of its vertices to each.
* `isLoop_of_suffix` — an edge from the end of a path back onto it cuts off a loop.
* `transGen_of_isLoop` — a vertex on a loop can be reached from itself.
-/

namespace DebtGauge

open Relation

variable {α : Type} {next : α → List α}

/-- The edges of the graph in which `next` gives the targets of a vertex. -/
def Edge (next : α → List α) (a b : α) : Prop := b ∈ next a

/-- No edge leads from the vertices out of them. -/
def EdgesStay (next : α → List α) (vertices : List α) : Prop :=
  ∀ vertex ∈ vertices, ∀ target ∈ next vertex, target ∈ vertices

/-- A sequence of vertices that are linked by edges. -/
abbrev IsPath (next : α → List α) (path : List α) : Prop := path.IsChain (Edge next)

/-- A path without repetition whose last vertex has an edge to its first. -/
structure IsLoop (next : α → List α) (loop : List α) : Prop where
  ne_nil : loop ≠ []
  nodup : loop.Nodup
  linked : IsPath next loop
  closes : Edge next (loop.getLast ne_nil) (loop.head ne_nil)

/-- Each of the two vertices can be reached from the other. -/
def Connected (next : α → List α) (a b : α) : Prop :=
  ReflTransGen (Edge next) a b ∧ ReflTransGen (Edge next) b a

theorem Connected.trans {a b c : α} (hab : Connected next a b) (hbc : Connected next b c) :
    Connected next a c :=
  ⟨hab.1.trans hbc.1, hbc.2.trans hab.2⟩

/-! ## Walking along a path -/

/-- A path leads from its head to each of its vertices. -/
theorem IsPath.reaches_of_mem {a : α} {path : List α} (h : IsPath next (a :: path)) {b : α}
    (hb : b ∈ a :: path) : ReflTransGen (Edge next) a b := by
  induction path generalizing a with
  | nil =>
    obtain rfl : b = a := by simpa using hb
    exact .refl
  | cons c path ih =>
    obtain ⟨hEdge, hRest⟩ := List.isChain_cons_cons.mp h
    rcases List.mem_cons.mp hb with rfl | hb
    · exact .refl
    · exact (ReflTransGen.single hEdge).trans (ih hRest hb)

/-- A path leads from each of its vertices to its last one. -/
theorem IsPath.reaches_getLast {path : List α} (h : IsPath next path) (hne : path ≠ []) {a : α}
    (ha : a ∈ path) : ReflTransGen (Edge next) a (path.getLast hne) := by
  -- the path from the vertex on ends where the whole path ends
  obtain ⟨before, after, rfl⟩ := List.append_of_mem ha
  have hTail : IsPath next (a :: after) := h.right_of_append
  have hLast : (before ++ a :: after).getLast hne = (a :: after).getLast (by simp) :=
    List.getLast_append_of_ne_nil _ (by simp)
  rw [hLast]
  exact hTail.reaches_of_mem (List.getLast_mem _)

/-! ## Walking around a loop -/

/-- A loop leads from each of its vertices to each: on to the end, over the closing edge,
and on from the start. -/
theorem IsLoop.reaches {loop : List α} (h : IsLoop next loop) {a b : α} (ha : a ∈ loop)
    (hb : b ∈ loop) : ReflTransGen (Edge next) a b := by
  have hFromHead : ReflTransGen (Edge next) (loop.head h.ne_nil) b := by
    have hCons := List.cons_head_tail h.ne_nil
    have hPath : IsPath next (loop.head h.ne_nil :: loop.tail) := hCons.symm ▸ h.linked
    exact hPath.reaches_of_mem (hCons.symm ▸ hb)
  exact ((h.linked.reaches_getLast h.ne_nil ha).tail h.closes).trans hFromHead

theorem IsLoop.connected {loop : List α} (h : IsLoop next loop) {a b : α} (ha : a ∈ loop)
    (hb : b ∈ loop) : Connected next a b :=
  ⟨h.reaches ha hb, h.reaches hb ha⟩

/-- A vertex on a loop can be reached from itself in one step or more. -/
theorem transGen_of_isLoop {loop : List α} (h : IsLoop next loop) {a : α} (ha : a ∈ loop) :
    TransGen (Edge next) a a := by
  have hLast := List.getLast_mem h.ne_nil
  have hHead := List.head_mem h.ne_nil
  exact (TransGen.tail' (h.reaches ha hLast) h.closes).trans_left (h.reaches hHead ha)

/-- An edge from the end of a path back onto it cuts off a loop. -/
theorem isLoop_of_suffix {before loop : List α} {a b : α} (hNodup : (before ++ loop).Nodup)
    (hPath : IsPath next (before ++ loop)) (hHead : loop.head? = some b)
    (hLast : loop.getLast? = some a) (hEdge : Edge next a b) : IsLoop next loop := by
  have hne : loop ≠ [] := by
    rintro rfl
    simp at hHead
  refine ⟨hne, (List.nodup_append.mp hNodup).2.1, hPath.right_of_append, ?_⟩
  rw [List.head?_eq_some_head hne, Option.some_inj] at hHead
  rw [List.getLast?_eq_some_getLast hne, Option.some_inj] at hLast
  rwa [hHead, hLast]

end DebtGauge
