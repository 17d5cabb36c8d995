import Mathlib.Data.List.Basic
import Mathlib.Logic.Relation

/-!
# Tasks that finish in any order

The tasks of a parallel run work on the items of a list. Each result is stored at the place of
its item; the first failure is recorded, and after it the run may end at any time. Whatever the
order in which the tasks finish, what is stored at a place is the result of the item there. So
a run without failures gives the results in the order of the items, and some order always leads
to an end.

Main definitions and results:

* `TaskBoard`, `TaskBoard.Step` — what is known of the tasks, and how one more of them finishes;
* `TaskBoard.Sound`, `Sound.step`, `sound_of_run` — what is stored and recorded is true;
* `result_eq_mapM` — the results of a run without failures;
* `exists_finished` — a run can always be brought to its end.
-/

namespace DebtGauge

open Relation

/-- The results of the tasks that have finished, each at the place of its item, and the failure
that was recorded first. -/
structure TaskBoard (ε β : Type) where
  slots : List (Option β)
  failure : Option ε

namespace TaskBoard

variable {α β ε : Type} {task : α → Except ε β} {items : List α}
  {board next : TaskBoard ε β}

/-- Before any task has finished. -/
def start (ε β : Type) (items : List α) : TaskBoard ε β :=
  ⟨List.replicate items.length none, none⟩

/-- One of the tasks finishes that have not finished before. -/
inductive Step (task : α → Except ε β) (items : List α) (board : TaskBoard ε β) :
    TaskBoard ε β → Prop
  | store {place : Nat} {item : α} {result : β} (hItem : items[place]? = some item)
    (hOpen : board.slots[place]? = some none) (hTask : task item = .ok result) :
    Step task items board { board with slots := board.slots.set place (some result) }
  | refuse {place : Nat} {item : α} {failure : ε} (hItem : items[place]? = some item)
    (hOpen : board.slots[place]? = some none) (hTask : task item = .error failure) :
    Step task items board { board with failure := some (board.failure.getD failure) }

/-- A run may end when a failure is recorded or every task has stored its result. -/
def IsFinished (board : TaskBoard ε β) : Prop :=
  board.failure.isSome = true ∨ none ∉ board.slots

/-- What a run ends with. -/
def result (board : TaskBoard ε β) : Except ε (List β) :=
  match board.failure with
  | some failure => .error failure
  | none => .ok (board.slots.filterMap id)

/-! ## What is stored is true -/

/-- There is a slot for each item, which holds the result of the item if it holds anything, and a
recorded failure is that of an item. -/
structure Sound (task : α → Except ε β) (items : List α) (board : TaskBoard ε β) : Prop where
  length_eq : board.slots.length = items.length
  stored : ∀ (place : Nat) item result, items[place]? = some item →
    board.slots[place]? = some (some result) → task item = .ok result
  recorded : ∀ failure, board.failure = some failure → ∃ item ∈ items, task item = .error failure

theorem sound_start (task : α → Except ε β) (items : List α) :
    Sound task items (start ε β items) where
  length_eq := List.length_replicate
  stored place item result _ hSlot := by
    have hMem := List.mem_of_getElem? hSlot
    cases List.eq_of_mem_replicate hMem
  recorded failure hFailure := nomatch hFailure

theorem Sound.step (h : Sound task items board) (hStep : Step task items board next) :
    Sound task items next := by
  cases hStep with
  | @store place item result hItem hOpen hTask =>
    refine ⟨?_, ?_, h.recorded⟩
    · rw [List.length_set]
      exact h.length_eq
    · intro other item' result' hItem' hSlot
      rw [List.getElem?_set] at hSlot
      by_cases hSame : place = other
      · -- the slot that was just filled
        subst hSame
        rw [if_pos rfl] at hSlot
        split at hSlot
        · cases hSlot
          rw [hItem] at hItem'
          cases hItem'
          exact hTask
        · cases hSlot
      · rw [if_neg hSame] at hSlot
        exact h.stored other item' result' hItem' hSlot
  | @refuse place item failure hItem hOpen hTask =>
    -- the failure is kept only if none was recorded before
    refine ⟨h.length_eq, h.stored, fun recorded hRecorded => ?_⟩
    cases hBefore : board.failure with
    | none =>
      rw [hBefore] at hRecorded
      cases hRecorded
      exact ⟨item, List.mem_of_getElem? hItem, hTask⟩
    | some before =>
      rw [hBefore] at hRecorded
      cases hRecorded
      exact h.recorded before hBefore

theorem sound_of_run (hRun : ReflTransGen (Step task items) (start ε β items) board) :
    Sound task items board := by
  induction hRun with
  | refl => exact sound_start task items
  | tail _ hStep ih => exact ih.step hStep

/-! ## Results -/

/-- Full slots hold the results of the items in their order. -/
theorem mapM_eq_of_full {slots : List (Option β)} (hLength : slots.length = items.length)
    (hStored : ∀ (place : Nat) item result, items[place]? = some item →
      slots[place]? = some (some result) → task item = .ok result)
    (hFull : none ∉ slots) : items.mapM task = .ok (slots.filterMap id) := by
  induction items generalizing slots with
  | nil =>
    obtain rfl := List.length_eq_zero_iff.mp hLength
    rfl
  | cons item items ih =>
    cases slots with
    | nil => cases hLength
    | cons slot slots =>
      cases slot with
      | none => exact absurd (List.mem_cons_self ..) hFull
      | some result =>
        -- the first slot is that of the first item, and the others are shifted by one
        have hFirst := hStored 0 item result rfl rfl
        have hRest := ih (Nat.succ.inj hLength)
          (fun place item result hItem hSlot => hStored (place + 1) item result hItem hSlot)
          (fun hNone => hFull (List.mem_cons_of_mem _ hNone))
        rw [List.mapM_cons, hFirst, hRest]
        rfl

/-- If no item fails, every order ends with the results in the order of the items. -/
theorem result_eq_mapM (hTasks : ∀ item ∈ items, ∃ result, task item = .ok result)
    (hRun : ReflTransGen (Step task items) (start ε β items) board)
    (hFinished : board.IsFinished) : board.result = items.mapM task := by
  have hSound := sound_of_run hRun
  cases hFailure : board.failure with
  | some failure =>
    -- nothing can have been recorded
    obtain ⟨item, hItem, hError⟩ := hSound.recorded failure hFailure
    obtain ⟨result, hResult⟩ := hTasks item hItem
    rw [hError] at hResult
    cases hResult
  | none =>
    have hFull : none ∉ board.slots := by
      rcases hFinished with hSome | hFull
      · rw [hFailure] at hSome
        cases hSome
      · exact hFull
    rw [mapM_eq_of_full hSound.length_eq hSound.stored hFull, result, hFailure]

/-! ## Ends -/

theorem count_set_lt {slots : List (Option β)} {place : Nat} {result : β}
    (h : slots[place]? = some none) :
    (slots.set place (some result)).countP (·.isNone) < slots.countP (·.isNone) := by
  obtain ⟨hPlace, hNone⟩ := List.getElem?_eq_some_iff.mp h
  have hMem : none ∈ slots := List.mem_of_getElem? h
  have hPos : 0 < slots.countP (·.isNone) := List.countP_pos_iff.mpr ⟨none, hMem, rfl⟩
  rw [List.countP_set hPlace, hNone]
  simp only [Option.isNone_none, Option.isNone_some, if_true, Bool.false_eq_true, if_false]
  omega

/-- However far a run has come, some of its tasks can finish one after the other until it may
end. -/
theorem exists_finished_of_sound (hSound : Sound task items board) :
    ∃ last, ReflTransGen (Step task items) board last ∧ last.IsFinished := by
  -- each result that is stored leaves fewer slots empty
  generalize hCount : board.slots.countP (·.isNone) = count
  induction count using Nat.strongRecOn generalizing board with
  | ind count ih =>
    by_cases hFull : none ∈ board.slots
    case neg => exact ⟨board, .refl, .inr hFull⟩
    case pos =>
      obtain ⟨place, hOpen⟩ := List.mem_iff_getElem?.mp hFull
      obtain ⟨hPlace, -⟩ := List.getElem?_eq_some_iff.mp hOpen
      obtain ⟨item, hItem⟩ : ∃ item, items[place]? = some item :=
        ⟨_, List.getElem?_eq_getElem (hSound.length_eq ▸ hPlace)⟩
      cases hTask : task item with
      | error failure =>
        exact ⟨_, .single (.refuse hItem hOpen hTask), .inl rfl⟩
      | ok result =>
        have hStep : Step task items board
            { board with slots := board.slots.set place (some result) } :=
          .store hItem hOpen hTask
        obtain ⟨last, hRun, hLast⟩ :=
          ih _ (hCount ▸ count_set_lt hOpen) (hSound.step hStep) rfl
        exact ⟨last, .head hStep hRun, hLast⟩

theorem exists_finished (task : α → Except ε β) (items : List α) :
    ∃ last, ReflTransGen (Step task items) (start ε β items) last ∧ last.IsFinished :=
  exists_finished_of_sound (sound_start task items)

end TaskBoard

end DebtGauge
