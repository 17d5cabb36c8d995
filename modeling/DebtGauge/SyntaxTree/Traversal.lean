import DebtGauge.SyntaxTree.Basic

/-!
# Walks over a syntax tree

A visitor sees the nodes of a tree in source order, parents before their children. It
gathers a result, and for each node it decides whether the children are visited and what
is handed down to them. The walk keeps the nodes still to be visited on an agenda, so the
depth of a tree is no limit.

Main definitions:

* `SyntaxTree.walk` — the walk with an agenda;
* `SyntaxTree.descend` — the same walk as a recursion on the tree;
* `SyntaxTree.visited` — the nodes that a walk reaches, each with what was handed down
  to it.
-/

namespace DebtGauge.SyntaxTree

/-- A visitor that gathers an `σ` and hands an `ι` down: from the result so far, a node
and what was handed down to it, the new result and what its children get, if they are to
be visited. -/
abbrev Visitor (σ ι : Type) := σ → SyntaxTree → ι → σ × Option ι

/-- The number of nodes below and at the entries of an agenda. -/
def agendaSize {ι : Type} (agenda : List (SyntaxTree × ι)) : Nat :=
  sizeAll (agenda.map Prod.fst)

theorem sizeAll_append (xs ys : List SyntaxTree) :
    sizeAll (xs ++ ys) = sizeAll xs + sizeAll ys := by
  induction xs with
  | nil => simp [sizeAll]
  | cons x xs ih => rw [List.cons_append, sizeAll_cons, sizeAll_cons, ih, Nat.add_assoc]

/-- Trees that all get the same handed down. -/
def entries {ι : Type} (handed : ι) (trees : List SyntaxTree) : List (SyntaxTree × ι) :=
  trees.map fun tree => (tree, handed)

theorem agendaSize_entries {ι : Type} (handed : ι) (trees : List SyntaxTree)
    (rest : List (SyntaxTree × ι)) :
    agendaSize (entries handed trees ++ rest) = sizeAll trees + agendaSize rest := by
  have fst_entries : (entries handed trees).map Prod.fst = trees := by
    simp [entries, Function.comp_def]
  rw [agendaSize, List.map_append, sizeAll_append, fst_entries, agendaSize]

/-- Visits the entries of an agenda; the children of a node are visited before the
entries behind it. -/
def walkAgenda {σ ι : Type} (visit : Visitor σ ι) (result : σ) :
    List (SyntaxTree × ι) → σ
  | [] => result
  | (node info children, handed) :: rest =>
    match visit result (node info children) handed with
    | (result, none) => walkAgenda visit result rest
    | (result, some below) =>
      walkAgenda visit result (entries below children ++ rest)
termination_by agenda => agendaSize agenda
decreasing_by
  · simp only [agendaSize, List.map_cons, sizeAll_cons, size_node]
    omega
  · rw [agendaSize_entries]
    simp only [agendaSize, List.map_cons, sizeAll_cons, size_node]
    omega

/-- Visits a tree, starting with what is handed down to its root. -/
def walk {σ ι : Type} (visit : Visitor σ ι) (result : σ) (tree : SyntaxTree) (handed : ι) : σ :=
  walkAgenda visit result [(tree, handed)]

mutual

/-- Visits a node, and then its children from left to right. -/
def descend {σ ι : Type} (visit : Visitor σ ι) (result : σ) (handed : ι) : SyntaxTree → σ
  | node info children =>
    match visit result (node info children) handed with
    | (result, none) => result
    | (result, some below) => descendAll visit result below children

/-- Visits trees from left to right. -/
def descendAll {σ ι : Type} (visit : Visitor σ ι) (result : σ) (handed : ι) :
    List SyntaxTree → σ
  | [] => result
  | tree :: rest => descendAll visit (descend visit result handed tree) handed rest

end

/-- What a node hands down to its children; `none` leaves them out. -/
abbrev Guide (ι : Type) := SyntaxTree → ι → Option ι

/-- The visitor that lists what it sees, last first. -/
def lister {ι : Type} (guide : Guide ι) : Visitor (List (SyntaxTree × ι)) ι :=
  fun seen tree handed => ((tree, handed) :: seen, guide tree handed)

/-- The nodes that a walk reaches, in source order, each with what was handed down to
it. -/
def visited {ι : Type} (guide : Guide ι) (tree : SyntaxTree) (handed : ι) :
    List (SyntaxTree × ι) :=
  (walk (lister guide) [] tree handed).reverse

/-- The guide into every node. -/
def everywhere : Guide Unit := fun _ _ => some ()

/-- All nodes of a tree, in source order. -/
def nodes (tree : SyntaxTree) : List SyntaxTree :=
  (visited everywhere tree ()).map Prod.fst

end DebtGauge.SyntaxTree
