import DebtGauge.Duplication.Grouping
import Mathlib.Data.List.Basic

/-!
# Which item absorbs which

Groups are made by cutting what a leader absorbs out of the list of items. Seen from the
whole list, an item is absorbed just if an earlier item that is not absorbed is near it, and
the earliest such item leads its group. Items may be equal, so all of this is said of their
places.

Main definitions and results:

* `Absorbed`, `leader?` — the items that are absorbed, and the place of the leader;
* `followers`, `leading` — the places a leader absorbs, and the places with followers;
* `absorbed_iff`, `leader?_eq_some_iff` — the recursion that the two obey;
* `greedyGroups_map_some` — the groups of a list, by places.
-/

namespace DebtGauge

/-! ## Groups of changed items -/

/-- A group with each of its items changed. -/
def Group.map {α β : Type} (f : α → β) (group : Group α) : Group β :=
  ⟨f group.leader, group.absorbed.map f⟩

/-- Changing the items first or last makes the same groups. -/
theorem leaders_map {α β : Type} (near : β → β → Bool) (f : α → β) (items : List α) :
    leaders near (items.map f) =
      (leaders (fun a b => near (f a) (f b)) items).map (Group.map f) := by
  induction items using leaders.induct fun a b => near (f a) (f b) with
  | case1 => simp [leaders]
  | case2 first rest ih =>
    have hLeft : leftBy near (f first) (rest.map f) =
        (leftBy (fun a b => near (f a) (f b)) first rest).map f := List.filter_map
    have hAbsorbed : absorbedBy near (f first) (rest.map f) =
        (absorbedBy (fun a b => near (f a) (f b)) first rest).map f := List.filter_map
    rw [List.map_cons, leaders, leaders, List.map_cons, hLeft, hAbsorbed, ih]
    rfl

theorem greedyGroups_map {α β : Type} (near : β → β → Bool) (f : α → β) (items : List α) :
    greedyGroups near (items.map f) =
      (greedyGroups (fun a b => near (f a) (f b)) items).map (Group.map f) := by
  have hEmpty : (fun group : Group β => !group.absorbed.isEmpty) ∘ Group.map f =
      fun group : Group α => !group.absorbed.isEmpty := by
    funext group
    rw [Function.comp_apply, Group.map, List.isEmpty_map]
  rw [greedyGroups, greedyGroups, leaders_map, List.filter_map, hEmpty]

/-! ## Places -/

section Places

variable {α : Type} (near : α → α → Bool) (items : List α)

/-- Whether the items at two places are near each other; there may be none. -/
def nearAt (i j : Nat) : Bool :=
  items[i]?.any fun a => items[j]?.any fun b => near a b

/-- The places below `n` whose items are not absorbed. -/
def standing : Nat → List Nat
  | 0 => []
  | n + 1 =>
    if (standing n).any (nearAt near items · n) then standing n else standing n ++ [n]

/-- The item at the place is near an earlier one that is not absorbed itself. -/
def Absorbed (j : Nat) : Prop :=
  ∃ i ∈ standing near items j, nearAt near items i j = true

instance (j : Nat) : Decidable (Absorbed near items j) :=
  inferInstanceAs (Decidable (∃ i ∈ standing near items j, nearAt near items i j = true))

/-- The place of the item that absorbs the one at a place. -/
def leader? (j : Nat) : Option Nat :=
  (standing near items j).find? (nearAt near items · j)

/-- The places of the items that the one at a place absorbs. -/
def followers (i : Nat) : List Nat :=
  (List.range items.length).filter fun j => leader? near items j = some i

/-- The places of the items that absorb others. -/
def leading : List Nat :=
  (List.range items.length).filter fun i =>
    ¬ Absorbed near items i ∧ followers near items i ≠ []

variable {near items}

theorem nearAt_iff {i j : Nat} : nearAt near items i j = true ↔
    ∃ a b, items[i]? = some a ∧ items[j]? = some b ∧ near a b = true := by
  simp only [nearAt, Option.any_eq_true]
  constructor
  · rintro ⟨a, ha, b, hb, hNear⟩
    exact ⟨a, b, ha, hb, hNear⟩
  · rintro ⟨a, b, ha, hb, hNear⟩
    exact ⟨a, ha, b, hb, hNear⟩

theorem lt_of_nearAt {i j : Nat} (h : nearAt near items i j = true) :
    i < items.length ∧ j < items.length := by
  obtain ⟨a, b, ha, hb, _⟩ := nearAt_iff.mp h
  exact ⟨(List.getElem?_eq_some_iff.mp ha).1, (List.getElem?_eq_some_iff.mp hb).1⟩

theorem standing_succ_of_absorbed {n : Nat} (h : Absorbed near items n) :
    standing near items (n + 1) = standing near items n := by
  rw [standing, if_pos (List.any_eq_true.mpr h)]

theorem standing_succ_of_not_absorbed {n : Nat} (h : ¬ Absorbed near items n) :
    standing near items (n + 1) = standing near items n ++ [n] := by
  rw [standing, if_neg (fun hAny => h (List.any_eq_true.mp hAny))]

theorem mem_standing {i n : Nat} :
    i ∈ standing near items n ↔ i < n ∧ ¬ Absorbed near items i := by
  -- whether `n` itself is absorbed depends on `standing n` alone
  induction n with
  | zero => simp [standing]
  | succ n ih =>
    by_cases hAbsorbed : Absorbed near items n
    · rw [standing_succ_of_absorbed hAbsorbed, ih]
      constructor
      · exact fun h => ⟨Nat.lt_succ_of_lt h.1, h.2⟩
      · rintro ⟨hLess, hStands⟩
        have hNe : i ≠ n := by
          rintro rfl
          exact hStands hAbsorbed
        exact ⟨by omega, hStands⟩
    · rw [standing_succ_of_not_absorbed hAbsorbed, List.mem_append, List.mem_singleton, ih]
      constructor
      · rintro (⟨hLess, hStands⟩ | rfl)
        · exact ⟨Nat.lt_succ_of_lt hLess, hStands⟩
        · exact ⟨Nat.lt_succ_self _, hAbsorbed⟩
      · rintro ⟨hLess, hStands⟩
        rcases Nat.lt_succ_iff_lt_or_eq.mp hLess with hLess | rfl
        · exact Or.inl ⟨hLess, hStands⟩
        · exact Or.inr rfl

theorem pairwise_standing (n : Nat) : (standing near items n).Pairwise (· < ·) := by
  induction n with
  | zero => exact List.Pairwise.nil
  | succ n ih =>
    by_cases hAbsorbed : Absorbed near items n
    · rwa [standing_succ_of_absorbed hAbsorbed]
    · rw [standing_succ_of_not_absorbed hAbsorbed]
      refine List.pairwise_append.mpr ⟨ih, List.pairwise_singleton _ _, fun i hi j hj => ?_⟩
      rw [List.mem_singleton.mp hj]
      exact (mem_standing.mp hi).1

/-- An item is absorbed just if an earlier one that is not absorbed is near it. -/
theorem absorbed_iff {j : Nat} : Absorbed near items j ↔
    ∃ i < j, ¬ Absorbed near items i ∧ nearAt near items i j = true := by
  unfold Absorbed
  constructor
  · rintro ⟨i, hi, hNear⟩
    obtain ⟨hLess, hStands⟩ := mem_standing.mp hi
    exact ⟨i, hLess, hStands, hNear⟩
  · rintro ⟨i, hLess, hStands, hNear⟩
    exact ⟨i, mem_standing.mpr ⟨hLess, hStands⟩, hNear⟩

theorem isSome_leader?_iff {j : Nat} :
    (leader? near items j).isSome = true ↔ Absorbed near items j :=
  List.find?_isSome

/-- The leader comes first among the earlier items that are not absorbed and near. -/
theorem leader?_spec {i j : Nat} (h : leader? near items j = some i) :
    (i < j ∧ ¬ Absorbed near items i ∧ nearAt near items i j = true) ∧
      ∀ k < i, ¬ Absorbed near items k → nearAt near items k j = false := by
  obtain ⟨hNear, before, after, hSplit, hBefore⟩ := List.find?_eq_some_iff_append.mp h
  have hMem : i ∈ standing near items j := by
    rw [hSplit]
    exact List.mem_append_right _ (List.mem_cons_self ..)
  obtain ⟨hLess, hStands⟩ := mem_standing.mp hMem
  refine ⟨⟨hLess, hStands, hNear⟩, fun k hk hkStands => ?_⟩
  -- the list is sorted, so a smaller place stands before the one that was found
  have hSorted : (standing near items j).Pairwise (· < ·) := pairwise_standing j
  have hkMem : k ∈ standing near items j := mem_standing.mpr ⟨Nat.lt_trans hk hLess, hkStands⟩
  rw [hSplit] at hSorted hkMem
  rcases List.mem_append.mp hkMem with hkBefore | hkAfter
  · simpa using hBefore k hkBefore
  · have hLater : i ≤ k := by
      rcases List.mem_cons.mp hkAfter with rfl | hkAfter
      · exact Nat.le_refl _
      · exact Nat.le_of_lt
          ((List.pairwise_cons.mp (List.pairwise_append.mp hSorted).2.1).1 k hkAfter)
    omega

theorem leader?_eq_some_iff {i j : Nat} : leader? near items j = some i ↔
    (i < j ∧ ¬ Absorbed near items i ∧ nearAt near items i j = true) ∧
      ∀ k < i, ¬ Absorbed near items k → nearAt near items k j = false := by
  refine ⟨leader?_spec, ?_⟩
  rintro ⟨⟨hLess, hStands, hNear⟩, hFirst⟩
  have hAbsorbed : Absorbed near items j := absorbed_iff.mpr ⟨i, hLess, hStands, hNear⟩
  obtain ⟨k, hk⟩ := Option.isSome_iff_exists.mp (isSome_leader?_iff.mpr hAbsorbed)
  obtain ⟨⟨_, hkStands, hkNear⟩, hkFirst⟩ := leader?_spec hk
  -- both places are the first one that qualifies
  rcases Nat.lt_trichotomy k i with hLower | rfl | hHigher
  · rw [hFirst k hLower hkStands] at hkNear
    cases hkNear
  · exact hk
  · rw [hkFirst i hHigher hStands] at hNear
    cases hNear

theorem mem_followers {i j : Nat} :
    j ∈ followers near items i ↔ leader? near items j = some i := by
  rw [followers, List.mem_filter, decide_eq_true_eq, List.mem_range]
  exact ⟨fun h => h.2, fun h => ⟨(lt_of_nearAt (leader?_spec h).1.2.2).2, h⟩⟩

/-- Without a follower a place may lead or not, but no place with one is absorbed. -/
theorem mem_leading {i : Nat} : i ∈ leading near items ↔
    ¬ Absorbed near items i ∧ ∃ j, leader? near items j = some i := by
  rw [leading, List.mem_filter, decide_eq_true_eq, List.mem_range]
  constructor
  · rintro ⟨_, hStands, hFollowers⟩
    obtain ⟨j, hj⟩ := List.exists_mem_of_ne_nil _ hFollowers
    exact ⟨hStands, j, mem_followers.mp hj⟩
  · rintro ⟨hStands, j, hj⟩
    refine ⟨(lt_of_nearAt (leader?_spec hj).1.2.2).1, hStands, ?_⟩
    exact List.ne_nil_of_mem (mem_followers.mpr hj)

theorem pairwise_leading : (leading near items).Pairwise (· < ·) :=
  List.pairwise_lt_range.filter _

theorem length_followers_le (i : Nat) : (followers near items i).length ≤ items.length := by
  have hLength := List.length_filter_le (fun j => leader? near items j = some i)
    (List.range items.length)
  rwa [List.length_range] at hLength

/-! ## The groups by places -/

/-- Whether no place below `i` that leads absorbs the item at `j`. -/
def isOpen (near : α → α → Bool) (items : List α) (i j : Nat) : Bool :=
  (standing near items i).all fun k => !nearAt near items k j

theorem isOpen_iff {i j : Nat} : isOpen near items i j = true ↔
    ∀ k < i, ¬ Absorbed near items k → nearAt near items k j = false := by
  simp only [isOpen, List.all_eq_true, mem_standing, Bool.not_eq_true']
  exact ⟨fun h k hk hStands => h k ⟨hk, hStands⟩, fun h k hk => h k hk.1 hk.2⟩

theorem isOpen_self_iff {i : Nat} : isOpen near items i i = true ↔ ¬ Absorbed near items i := by
  rw [isOpen_iff, absorbed_iff]
  constructor
  · rintro hOpen ⟨k, hk, hStands, hNear⟩
    rw [hOpen k hk hStands] at hNear
    cases hNear
  · intro hNone k hk hStands
    exact Bool.eq_false_iff.mpr fun hNear => hNone ⟨k, hk, hStands, hNear⟩

/-- One place further, what the item at `i` absorbs is open no more. -/
theorem isOpen_succ {i j : Nat} (h : ¬ Absorbed near items i) :
    isOpen near items (i + 1) j = (isOpen near items i j && !nearAt near items i j) := by
  rw [isOpen, standing_succ_of_not_absorbed h, List.all_append, List.all_cons, List.all_nil,
    Bool.and_true, isOpen]

/-- A place absorbs those of the open places behind it that are near. -/
theorem followers_eq {i n : Nat} (hLength : items.length = i + 1 + n)
    (hStands : ¬ Absorbed near items i) :
    followers near items i =
      ((List.range' (i + 1) n).filter (isOpen near items i)).filter (nearAt near items i) := by
  have hRange : List.range items.length = List.range' 0 (i + 1) ++ List.range' (i + 1) n := by
    rw [hLength, List.range_eq_range', ← List.range'_append_1, Nat.zero_add]
  -- no place up to `i` follows `i`
  have hBefore : (List.range' 0 (i + 1)).filter (fun j => leader? near items j = some i) = [] := by
    rw [List.filter_eq_nil_iff]
    intro j hj hLeader
    have hLess := (leader?_spec (of_decide_eq_true hLeader)).1.1
    have hRange := List.mem_range'_1.mp hj
    omega
  rw [followers, hRange, List.filter_append, hBefore, List.nil_append, List.filter_filter]
  refine List.filter_congr fun j hj => ?_
  have hLess : i < j := (List.mem_range'_1.mp hj).1
  rw [Bool.eq_iff_iff, decide_eq_true_eq, Bool.and_eq_true, leader?_eq_some_iff, isOpen_iff]
  exact ⟨fun h => ⟨h.1.2.2, h.2⟩, fun h => ⟨⟨hLess, hStands, h.1⟩, h.2⟩⟩

/-- The groups of the places from `i` on that no earlier place absorbs. The induction is on
the number of places left; each step passes an absorbed place or makes the group of one
that is not. -/
theorem leaders_isOpen {i n : Nat} (hLength : items.length = i + n) :
    leaders (nearAt near items) ((List.range' i n).filter (isOpen near items i)) =
      ((List.range' i n).filter fun l => ¬ Absorbed near items l).map
        fun l => ⟨l, followers near items l⟩ := by
  induction n generalizing i with
  | zero => simp [leaders]
  | succ n ih =>
    have hLength' : items.length = i + 1 + n := by omega
    rw [List.range'_succ]
    by_cases hAbsorbed : Absorbed near items i
    · -- an earlier place has taken `i`, and `i` takes nothing
      have hClosed : ¬ isOpen near items i i = true := fun h => isOpen_self_iff.mp h hAbsorbed
      have hSame : isOpen near items i = isOpen near items (i + 1) := by
        funext j
        rw [isOpen, isOpen, standing_succ_of_absorbed hAbsorbed]
      rw [List.filter_cons_of_neg hClosed, List.filter_cons_of_neg (by simpa using hAbsorbed),
        hSame, ih hLength']
    · -- `i` leads a group, and what it leaves is what is open at `i + 1`
      have hOpen : isOpen near items i i = true := isOpen_self_iff.mpr hAbsorbed
      have hLeft : leftBy (nearAt near items) i
          ((List.range' (i + 1) n).filter (isOpen near items i)) =
          (List.range' (i + 1) n).filter (isOpen near items (i + 1)) := by
        rw [leftBy, List.filter_filter]
        refine List.filter_congr fun j _ => ?_
        rw [isOpen_succ hAbsorbed, Bool.and_comm]
      rw [List.filter_cons_of_pos hOpen, List.filter_cons_of_pos (by simpa using hAbsorbed),
        leaders, hLeft, ih hLength', List.map_cons, absorbedBy, ← followers_eq hLength' hAbsorbed]

theorem greedyGroups_range :
    greedyGroups (nearAt near items) (List.range items.length) =
      (leading near items).map fun i => ⟨i, followers near items i⟩ := by
  have hOpen : (List.range items.length).filter (isOpen near items 0) =
      List.range items.length := List.filter_eq_self.mpr fun _ _ => rfl
  have hLeaders := @leaders_isOpen _ near items 0 items.length (Nat.zero_add _).symm
  rw [← List.range_eq_range', hOpen] at hLeaders
  rw [greedyGroups, hLeaders, List.filter_map, List.filter_filter, leading]
  congr 1
  refine List.filter_congr fun i _ => ?_
  rw [Bool.eq_iff_iff, Function.comp_apply, Bool.and_eq_true, Bool.not_eq_true',
    List.isEmpty_eq_false_iff, decide_eq_true_eq, decide_eq_true_eq, and_comm]

/-- The groups of a list, each as what stands at the place of its leader and at the places
of its followers. -/
theorem greedyGroups_map_some (near : α → α → Bool) (items : List α) :
    (greedyGroups near items).map (Group.map some) =
      (leading near items).map fun i =>
        ⟨items[i]?, (followers near items i).map fun j => items[j]?⟩ := by
  -- what stands at a place is compared like the places, so that `greedyGroups_map` applies twice
  let nearSome : Option α → Option α → Bool := fun a? b? => a?.any fun a => b?.any fun b => near a b
  have hItems : items.map some = (List.range items.length).map fun i => items[i]? := by
    refine List.ext_getElem (by simp) fun i hi _ => ?_
    rw [List.length_map] at hi
    simp [List.getElem?_eq_getElem hi]
  calc (greedyGroups near items).map (Group.map some)
      = greedyGroups nearSome (items.map some) := (greedyGroups_map nearSome some items).symm
    _ = (greedyGroups (nearAt near items) (List.range items.length)).map
          (Group.map fun i => items[i]?) := by
        rw [hItems]
        exact greedyGroups_map nearSome _ _
    _ = _ := by
        rw [greedyGroups_range, List.map_map]
        rfl

end Places

end DebtGauge
