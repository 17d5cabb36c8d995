import DebtGauge.Proofs.SyntaxTree.Walk

/-!
# The calls that a walk makes

A walk over a tree is a loop with a stack. A round of it takes the last entry off the stack and
calls the visitor on it; children that are to be visited are pushed in reverse, so that the first
of them is the next one to be taken off. Entries of all depths lie on the stack together, and yet
the visitor cannot tell the loop from a recursion that visits a node and then its children from
left to right: every call is the same, with the same result so far and the same handed down.

Main definitions:

* `Call` — a call of the visitor, with all that the visitor gets;
* `callsOf` — the calls that the recursion on a tree makes;
* `logged` — a visitor that also keeps a list of its calls;
* `Walking` — a walk that is under way, with its stack;
* `Walking.rounds` — the calls that the next rounds make, and where they leave the walk.

Main results:

* `Walking.ahead_of_round?` — a round makes the first of the calls that are still to be made.
* `Walking.rounds_eq` — so rounds make just the first calls of the recursion.
* `walk_calls_as_recursion` — the walk over a tree is the recursion, call by call, and it is over
  after at most as many rounds as the tree has nodes.
-/

namespace DebtGauge.SyntaxTree

variable {σ ι : Type}

/-- A call of a visitor: the result so far, and a node with what was handed down to it. -/
structure Call (σ ι : Type) where
  result : σ
  node : SyntaxTree
  handed : ι

/-! ## The calls of the recursion -/

mutual

/-- The calls that the recursion on a tree makes, in their order. -/
def callsOf (visit : Visitor σ ι) (result : σ) (handed : ι) : SyntaxTree → List (Call σ ι)
  | node info children =>
    ⟨result, node info children, handed⟩ ::
      match visit result (node info children) handed with
      | (_, none) => []
      | (result, some below) => callsOfAll visit result below children

/-- The calls that the recursion makes on trees from left to right. -/
def callsOfAll (visit : Visitor σ ι) (result : σ) (handed : ι) :
    List SyntaxTree → List (Call σ ι)
  | [] => []
  | tree :: rest =>
    callsOf visit result handed tree ++
      callsOfAll visit (descend visit result handed tree) handed rest

end

mutual

/-- The recursion calls the visitor once for each node at most. -/
theorem length_callsOf_le (visit : Visitor σ ι) (result : σ) (handed : ι) :
    (tree : SyntaxTree) → (callsOf visit result handed tree).length ≤ tree.size
  | node info children => by
    rw [callsOf, size_node, List.length_cons, Nat.add_le_add_iff_right]
    split
    · exact Nat.zero_le _
    case h_2 after below hVisit => exact length_callsOfAll_le visit after below children

theorem length_callsOfAll_le (visit : Visitor σ ι) (result : σ) (handed : ι) :
    (trees : List SyntaxTree) → (callsOfAll visit result handed trees).length ≤ sizeAll trees
  | [] => Nat.zero_le _
  | tree :: rest => by
    rw [callsOfAll, sizeAll_cons, List.length_append]
    exact Nat.add_le_add (length_callsOf_le visit result handed tree)
      (length_callsOfAll_le visit _ handed rest)

end

/-! ## A visitor that logs its calls -/

/-- The visitor that does the same, and keeps a list of its calls beside the result. -/
def logged (visit : Visitor σ ι) : Visitor (σ × List (Call σ ι)) ι := fun kept tree handed =>
  let (result, below) := visit kept.1 tree handed
  ((result, kept.2 ++ [⟨kept.1, tree, handed⟩]), below)

mutual

/-- Logged or not, the recursion comes to the same result, and the log is the list of its
calls. -/
theorem descend_logged (visit : Visitor σ ι) (result : σ) (log : List (Call σ ι)) (handed : ι) :
    (tree : SyntaxTree) → descend (logged visit) (result, log) handed tree =
      (descend visit result handed tree, log ++ callsOf visit result handed tree)
  | node info children => by
    rw [descend, descend, callsOf, logged]
    rcases hVisit : visit result (node info children) handed with ⟨after, _ | below⟩
    · rfl
    · simp only
      rw [descendAll_logged visit after _ below children, List.append_assoc, List.singleton_append]

theorem descendAll_logged (visit : Visitor σ ι) (result : σ) (log : List (Call σ ι))
    (handed : ι) : (trees : List SyntaxTree) →
      descendAll (logged visit) (result, log) handed trees =
        (descendAll visit result handed trees, log ++ callsOfAll visit result handed trees)
  | [] => by rw [descendAll, descendAll, callsOfAll, List.append_nil]
  | tree :: rest => by
    rw [descendAll, descendAll, callsOfAll, descend_logged visit result log handed tree,
      descendAll_logged visit _ _ handed rest, List.append_assoc]

end

/-! ## The calls that a stack still makes -/

/-- The calls of the recursion on entries, one entry after the other. -/
def callsOfEntries (visit : Visitor σ ι) (result : σ) :
    List (SyntaxTree × ι) → List (Call σ ι)
  | [] => []
  | entry :: rest =>
    callsOf visit result entry.2 entry.1 ++
      callsOfEntries visit (descendEntry visit result entry) rest

theorem callsOfEntries_append (visit : Visitor σ ι) (result : σ) (xs ys : List (SyntaxTree × ι)) :
    callsOfEntries visit result (xs ++ ys) = callsOfEntries visit result xs ++
      callsOfEntries visit (xs.foldl (descendEntry visit) result) ys := by
  induction xs generalizing result with
  | nil => rfl
  | cons entry rest ih =>
    rw [List.cons_append, callsOfEntries, callsOfEntries, ih, List.append_assoc, List.foldl_cons]

theorem callsOfEntries_entries (visit : Visitor σ ι) (result : σ) (handed : ι)
    (trees : List SyntaxTree) :
    callsOfEntries visit result (entries handed trees) = callsOfAll visit result handed trees := by
  induction trees generalizing result with
  | nil => rfl
  | cons tree rest ih =>
    rw [callsOfAll, ← ih]
    rfl

theorem callsOfEntries_eq_nil_iff (visit : Visitor σ ι) (result : σ)
    (agenda : List (SyntaxTree × ι)) : callsOfEntries visit result agenda = [] ↔ agenda = [] := by
  cases agenda with
  | nil => exact ⟨fun _ => rfl, fun _ => rfl⟩
  | cons entry rest =>
    -- the first entry is visited in any case
    obtain ⟨⟨info, children⟩, handed⟩ := entry
    rw [callsOfEntries, callsOf]
    simp

/-! ## The loop -/

/-- A walk that is under way: the result so far, and the entries still to be visited. The last
entry is the next one. -/
structure Walking (σ ι : Type) where
  result : σ
  stack : List (SyntaxTree × ι)

namespace Walking

/-- The next round of a walk, with the call that it makes; none if the stack is empty. -/
def round? (visit : Visitor σ ι) (walking : Walking σ ι) : Option (Call σ ι × Walking σ ι) :=
  walking.stack.getLast?.map fun (tree, handed) =>
    let rest := walking.stack.dropLast
    let call := ⟨walking.result, tree, handed⟩
    match visit walking.result tree handed with
    | (result, none) => (call, ⟨result, rest⟩)
    | (result, some below) => (call, ⟨result, rest ++ (entries below tree.children).reverse⟩)

/-- Goes on for up to `count` rounds: the calls that they make, and where they leave the walk. -/
def rounds (visit : Visitor σ ι) : Nat → Walking σ ι → List (Call σ ι) × Walking σ ι
  | 0, walking => ([], walking)
  | count + 1, walking =>
    match walking.round? visit with
    | none => ([], walking)
    | some (call, next) =>
      let (calls, last) := rounds visit count next
      (call :: calls, last)

/-- The calls that the recursion would make on what is on the stack. -/
def ahead (visit : Visitor σ ι) (walking : Walking σ ι) : List (Call σ ι) :=
  callsOfEntries visit walking.result walking.stack.reverse

/-- The result that the recursion would come to with what is on the stack. -/
def outcome (visit : Visitor σ ι) (walking : Walking σ ι) : σ :=
  walking.stack.reverse.foldl (descendEntry visit) walking.result

variable {visit : Visitor σ ι}

theorem round?_eq_none_iff {walking : Walking σ ι} :
    walking.round? visit = none ↔ walking.stack = [] := by
  rw [round?, Option.map_eq_none_iff, List.getLast?_eq_none_iff]

/-- A round takes an entry off the stack and leaves the others as they are. Either nothing comes
in its place, or its children do. -/
theorem round?_cases {walking next : Walking σ ι} {call : Call σ ι}
    (h : walking.round? visit = some (call, next)) : ∃ info children handed rest,
      walking.stack = rest ++ [(node info children, handed)] ∧
      call = ⟨walking.result, node info children, handed⟩ ∧
      (visit walking.result (node info children) handed = (next.result, none) ∧
          next.stack = rest ∨
        ∃ below, visit walking.result (node info children) handed = (next.result, some below) ∧
          next.stack = rest ++ (entries below children).reverse) := by
  obtain ⟨⟨⟨info, children⟩, handed⟩, hLast, hRound⟩ := Option.map_eq_some_iff.mp h
  obtain ⟨rest, hStack⟩ := List.getLast?_eq_some_iff.mp hLast
  refine ⟨info, children, handed, rest, hStack, ?_⟩
  simp only [hStack, List.dropLast_concat] at hRound
  split at hRound
  case h_1 result hVisit =>
    obtain ⟨rfl, rfl⟩ := Prod.mk.inj hRound
    exact ⟨rfl, .inl ⟨hVisit, rfl⟩⟩
  case h_2 result below hVisit =>
    obtain ⟨rfl, rfl⟩ := Prod.mk.inj hRound
    exact ⟨rfl, .inr ⟨below, hVisit, rfl⟩⟩

/-- A round makes the first of the calls that are still to be made, and changes neither the others
nor the result that they lead to. -/
theorem ahead_of_round? {walking next : Walking σ ι} {call : Call σ ι}
    (h : walking.round? visit = some (call, next)) :
    walking.ahead visit = call :: next.ahead visit ∧
      walking.outcome visit = next.outcome visit := by
  obtain ⟨info, children, handed, rest, hStack, rfl, hNext⟩ := round?_cases h
  have hReverse : walking.stack.reverse = (node info children, handed) :: rest.reverse := by
    rw [hStack, List.reverse_append, List.reverse_singleton, List.singleton_append]
  unfold ahead outcome
  -- the entry that is taken off is the first one of the stack read from its end
  rw [hReverse, callsOfEntries, callsOf, List.foldl_cons, descendEntry, descend]
  obtain ⟨hVisit, hRest⟩ | ⟨below, hVisit, hRest⟩ := hNext
  · rw [hRest, hVisit]
    exact ⟨rfl, rfl⟩
  · -- pushed in reverse, the children are taken off from left to right
    have hPushed : next.stack.reverse = entries below children ++ rest.reverse := by
      rw [hRest, List.reverse_append, List.reverse_reverse]
    rw [hPushed, hVisit, callsOfEntries_append, callsOfEntries_entries, List.foldl_append,
      foldl_entries]
    exact ⟨rfl, rfl⟩

/-- Rounds make the first of the calls that are still to be made, and leave the others to be
made. -/
theorem rounds_eq (count : Nat) (walking : Walking σ ι) :
    (walking.rounds visit count).1 = (walking.ahead visit).take count ∧
      (walking.rounds visit count).2.ahead visit = (walking.ahead visit).drop count ∧
      (walking.rounds visit count).2.outcome visit = walking.outcome visit := by
  induction count generalizing walking with
  | zero => exact ⟨rfl, rfl, rfl⟩
  | succ count ih =>
    unfold rounds
    split
    case h_1 hRound =>
      -- the stack is empty, and no calls are left
      have hAhead : walking.ahead visit = [] := by
        rw [ahead, round?_eq_none_iff.mp hRound]
        rfl
      rw [hAhead]
      exact ⟨rfl, rfl, rfl⟩
    case h_2 call next hRound =>
      obtain ⟨hCalls, hAhead, hOutcome⟩ := ih next
      obtain ⟨hFirst, hSame⟩ := ahead_of_round? hRound
      rw [hFirst, hSame]
      exact ⟨congrArg (call :: ·) hCalls, hAhead, hOutcome⟩

/-- With as many rounds as there are calls to be made the stack is used up. -/
theorem rounds_of_length_le {count : Nat} {walking : Walking σ ι}
    (h : (walking.ahead visit).length ≤ count) :
    walking.rounds visit count = (walking.ahead visit, ⟨walking.outcome visit, []⟩) := by
  obtain ⟨hCalls, hAhead, hOutcome⟩ := @rounds_eq _ _ visit count walking
  rw [List.take_of_length_le h] at hCalls
  rw [List.drop_eq_nil_of_le h, ahead, callsOfEntries_eq_nil_iff, List.reverse_eq_nil_iff] at hAhead
  rw [outcome, hAhead, List.reverse_nil, List.foldl_nil] at hOutcome
  rw [← hCalls, ← hOutcome, ← hAhead]

end Walking

/-! ## Main result -/

/-- The walk over a tree comes to the result of the recursion, and makes the same calls on the way.
Its rounds make these calls one by one from the stack, and the stack is empty after at most as
many rounds as the tree has nodes. -/
theorem walk_calls_as_recursion (visit : Visitor σ ι) (result : σ) (tree : SyntaxTree)
    (handed : ι) :
    walk visit result tree handed = descend visit result handed tree ∧
      walk (logged visit) (result, []) tree handed =
        descend (logged visit) (result, []) handed tree ∧
      descend (logged visit) (result, []) handed tree =
        (descend visit result handed tree, callsOf visit result handed tree) ∧
      (∀ count, (Walking.rounds visit count ⟨result, [(tree, handed)]⟩).1 =
        (callsOf visit result handed tree).take count) ∧
      Walking.rounds visit tree.size ⟨result, [(tree, handed)]⟩ =
        (callsOf visit result handed tree, ⟨walk visit result tree handed, []⟩) := by
  have hAhead : Walking.ahead visit ⟨result, [(tree, handed)]⟩ =
      callsOf visit result handed tree := List.append_nil _
  refine ⟨walk_eq_descend .., walk_eq_descend .., ?_, fun count => ?_, ?_⟩
  · rw [descend_logged, List.nil_append]
  · rw [(Walking.rounds_eq count _).1, hAhead]
  · have hLength : (Walking.ahead visit ⟨result, [(tree, handed)]⟩).length ≤ tree.size :=
      hAhead ▸ length_callsOf_le visit result handed tree
    rw [Walking.rounds_of_length_le hLength, hAhead, walk_eq_descend]
    rfl

end DebtGauge.SyntaxTree
