import DebtGauge.Discovery.Walk
import DebtGauge.Proofs.FilePath.Parts
import Mathlib.Algebra.Order.BigOperators.Group.List
import Mathlib.Data.List.Nodup

/-!
# Parts of a file tree

A path that can be followed leads to a part of the tree that it starts in, whatever `..` it goes
back through. What can be read there is a file of the tree, and what a walk delivers are some of
the files below. If the names in each directory are different, so are the places of the files.

Main definitions and results:

* `FileTree.induction` — a property of all trees, shown for a directory from its entries;
* `FileTree.Within`, `FileSystem.within_of_locate?` — parts of a tree, and that paths lead there;
* `FileTree.contents`, `contents_sublist` — the contents of the files of a part;
* `FileTree.walk_sublist` — a walk delivers places of files, in their order;
* `FileTree.IsProper`, `nodup_places`, `isPart_of_mem_places` — trees whose entries can be told
  apart by their names.
-/

namespace DebtGauge

open FilePath (Component)

namespace FileTree

/-- What holds of each file, and of a directory if it holds of all its entries, holds of a tree. -/
theorem induction {P : FileTree → Prop} (file : ∀ content, P (.file content))
    (directory : ∀ entries, (∀ entry ∈ entries, P entry.2) → P (.directory entries)) :
    (tree : FileTree) → P tree
  | .file content => file content
  | .directory entries => directory entries fun entry hEntry => by
    have hSmaller := List.sizeOf_lt_of_mem hEntry
    have hPair : sizeOf entry = 1 + sizeOf entry.1 + sizeOf entry.2 := rfl
    exact induction file directory entry.2
termination_by tree => sizeOf tree
decreasing_by
  rw [FileTree.directory.sizeOf_spec]
  omega

/-! ## Files -/

theorem filesOf_eq_flatMap (place : List String) (entries : List (String × FileTree)) :
    filesOf place entries = entries.flatMap fun entry => files (place ++ [entry.1]) entry.2 := by
  induction entries with
  | nil => rfl
  | cons entry rest ih => rw [filesOf, ih, List.flatMap_cons]

/-- The files seen from another place: only the way to them is a different one. -/
theorem files_eq_map (tree : FileTree) (place : List String) :
    files place tree = (files [] tree).map fun entry => (place ++ entry.1, entry.2) := by
  induction tree using FileTree.induction generalizing place with
  | file content => simp [files]
  | directory entries ih =>
    rw [files, files, filesOf_eq_flatMap, filesOf_eq_flatMap, List.map_flatMap]
    refine List.flatMap_congr fun entry hEntry => ?_
    -- both sides are seen from the entry
    rw [ih entry hEntry (place ++ [entry.1]), ih entry hEntry ([] ++ [entry.1]), List.map_map]
    refine List.map_congr_left fun file _ => ?_
    simp

/-- The contents of the files of a tree, in their order. -/
def contents (tree : FileTree) : List ByteArray :=
  (tree.files []).map Prod.snd

/-- The places of the files of a tree, as the names that lead to them. -/
def places (tree : FileTree) : List (List String) :=
  (tree.files []).map Prod.fst

theorem length_places (tree : FileTree) : tree.places.length = tree.contents.length := by
  rw [places, contents, List.length_map, List.length_map]

theorem contents_directory (entries : List (String × FileTree)) :
    (directory entries).contents = entries.flatMap fun entry => entry.2.contents := by
  rw [contents, files, filesOf_eq_flatMap, List.map_flatMap]
  refine List.flatMap_congr fun entry _ => ?_
  rw [files_eq_map, List.map_map]
  rfl

theorem places_directory (entries : List (String × FileTree)) :
    (directory entries).places =
      entries.flatMap fun entry => entry.2.places.map fun names => entry.1 :: names := by
  rw [places, files, filesOf_eq_flatMap, List.map_flatMap]
  refine List.flatMap_congr fun entry _ => ?_
  rw [files_eq_map, List.map_map, places, List.map_map]
  rfl

/-! ## Walks -/

theorem walkEntries_eq_flatMap (levels : List IgnoreLevel) (place : List String)
    (entries : List (String × FileTree)) :
    walkEntries levels place entries = entries.flatMap fun entry =>
      if IgnoreLevel.verdict? (levels.map (·.enter entry.1)) entry.2.isDirectory =
        some .excluded then []
      else walk (levels.map (·.enter entry.1)) (place ++ [entry.1]) entry.2 := by
  induction entries with
  | nil => rfl
  | cons entry rest ih => rw [walkEntries, ih, List.flatMap_cons]

/-- A walk delivers places of files, in their order. -/
theorem walk_sublist (tree : FileTree) (levels : List IgnoreLevel) (place : List String) :
    (walk levels place tree).Sublist (tree.places.map (place ++ ·)) := by
  induction tree using FileTree.induction generalizing levels place with
  | file content => simp [walk, places, files]
  | directory entries ih =>
    rw [walk, walkEntries_eq_flatMap, places_directory, List.map_flatMap]
    -- all entries are judged by the same levels, so these may be any
    generalize IgnoreLevel.ofDirectory (directory entries) :: levels = inner
    clear levels
    induction entries with
    | nil => exact List.Sublist.refl _
    | cons entry rest ihRest =>
      rw [List.flatMap_cons, List.flatMap_cons]
      refine List.Sublist.append ?_ (ihRest fun other hOther => ih other (.tail _ hOther))
      -- an entry that is excluded delivers nothing
      split
      · exact List.nil_sublist _
      · have hEntry := ih entry (.head _) (inner.map (·.enter entry.1)) (place ++ [entry.1])
        simpa [List.map_map, Function.comp_def] using hEntry

theorem length_walk_le (tree : FileTree) (levels : List IgnoreLevel) (place : List String) :
    (walk levels place tree).length ≤ tree.contents.length := by
  have hLength := (walk_sublist tree levels place).length_le
  rwa [List.length_map, length_places] at hLength

/-! ## Parts -/

/-- A tree is a part of itself, and the parts of its entries are parts of it. -/
inductive Within (part : FileTree) : FileTree → Prop
  | refl : Within part part
  | entry {entries : List (String × FileTree)} {entry : String × FileTree} :
    entry ∈ entries → Within part entry.2 → Within part (directory entries)

theorem Within.trans {part middle whole : FileTree} (h : Within part middle)
    (hMiddle : Within middle whole) : Within part whole := by
  induction hMiddle with
  | refl => exact h
  | entry hEntry _ ih => exact .entry hEntry ih

theorem mem_entries_of_child? {tree child : FileTree} {name : String}
    (h : tree.child? name = some child) : (name, child) ∈ tree.entries := by
  obtain ⟨before, after, hSplit, -⟩ := List.lookup_eq_some_iff.mp h
  rw [hSplit]
  simp

theorem within_of_child? {tree child : FileTree} {name : String}
    (h : tree.child? name = some child) : Within child tree := by
  have hEntry := mem_entries_of_child? h
  cases tree with
  | file content => exact absurd hEntry List.not_mem_nil
  | directory entries => exact .entry hEntry .refl

/-- The files of a part are files of the whole. -/
theorem contents_sublist {part whole : FileTree} (h : Within part whole) :
    part.contents.Sublist whole.contents := by
  induction h with
  | refl => exact List.Sublist.refl _
  | @entry entries entry hEntry _ ih =>
    obtain ⟨before, after, rfl⟩ := List.append_of_mem hEntry
    rw [contents_directory, List.flatMap_append, List.flatMap_cons]
    exact ih.trans ((List.sublist_append_left _ _).trans (List.sublist_append_right _ _))

/-! ## Proper trees -/

/-- In each directory the names are different, and they are names indeed: none of them is empty,
a dot, two dots, or has a slash in it. -/
structure IsProper (tree : FileTree) : Prop where
  names_nodup : ∀ entries, Within (directory entries) tree → (entries.map Prod.fst).Nodup
  names_isPart : ∀ entries, Within (directory entries) tree →
    ∀ entry ∈ entries, (Component.name entry.1).IsPart

theorem IsProper.within {part whole : FileTree} (h : whole.IsProper) (hPart : Within part whole) :
    part.IsProper where
  names_nodup entries hEntries := h.names_nodup entries (hEntries.trans hPart)
  names_isPart entries hEntries := h.names_isPart entries (hEntries.trans hPart)

theorem isProper_file (content : ByteArray) : (file content).IsProper where
  names_nodup _ h := nomatch h
  names_isPart _ h := nomatch h

theorem isProper_directory {entries : List (String × FileTree)}
    (hNodup : (entries.map Prod.fst).Nodup)
    (hEntries : ∀ entry ∈ entries, (Component.name entry.1).IsPart ∧ entry.2.IsProper) :
    (directory entries).IsProper where
  names_nodup others h := by
    cases h with
    | refl => exact hNodup
    | entry hEntry hWithin => exact (hEntries _ hEntry).2.names_nodup others hWithin
  names_isPart others h := by
    cases h with
    | refl => exact fun entry hEntry => (hEntries entry hEntry).1
    | entry hEntry hWithin => exact (hEntries _ hEntry).2.names_isPart others hWithin

/-- No two files of a proper tree have the same place. -/
theorem nodup_places {tree : FileTree} (h : tree.IsProper) : tree.places.Nodup := by
  induction tree using FileTree.induction with
  | file content => exact List.nodup_singleton _
  | directory entries ih =>
    rw [places_directory, List.nodup_flatMap]
    constructor
    · intro entry hEntry
      have hBelow := ih entry hEntry (h.within (.entry hEntry .refl))
      exact hBelow.map fun _ _ hEq => (List.cons.inj hEq).2
    · -- the first names tell the files of different entries apart
      have hNames := List.pairwise_map.mp (h.names_nodup entries .refl)
      refine hNames.imp fun hNe => List.disjoint_left.mpr fun names hFirst hSecond => ?_
      obtain ⟨_, -, rfl⟩ := List.mem_map.mp hFirst
      obtain ⟨_, -, hSame⟩ := List.mem_map.mp hSecond
      exact hNe (List.cons.inj hSame).1.symm

/-- The files of a proper tree are reached over names. -/
theorem isPart_of_mem_places {tree : FileTree} (h : tree.IsProper) {names : List String}
    (hNames : names ∈ tree.places) : ∀ name ∈ names, (Component.name name).IsPart := by
  induction tree using FileTree.induction generalizing names with
  | file content =>
    obtain rfl := List.mem_singleton.mp hNames
    exact fun name hName => absurd hName List.not_mem_nil
  | directory entries ih =>
    rw [places_directory] at hNames
    obtain ⟨entry, hEntry, hNames⟩ := List.mem_flatMap.mp hNames
    obtain ⟨below, hBelow, rfl⟩ := List.mem_map.mp hNames
    have hFirst := h.names_isPart entries .refl entry hEntry
    have hRest := ih entry hEntry (h.within (.entry hEntry .refl)) hBelow
    exact List.forall_mem_cons.mpr ⟨hFirst, hRest⟩

end FileTree

/-! ## What paths lead to -/

theorem Text.length_le_size_toByteArray (text : String) :
    text.length ≤ text.toByteArray.size := by
  -- each character takes a byte at least
  have hEach : ∀ size ∈ text.toList.map fun c => (String.utf8EncodeChar c).length, 1 ≤ size := by
    intro size hSize
    obtain ⟨c, -, rfl⟩ := List.mem_map.mp hSize
    rw [String.length_utf8EncodeChar]
    exact c.utf8Size_pos
  have hSum := List.length_le_sum_of_one_le _ hEach
  rw [List.length_map, String.length_toList] at hSum
  rwa [← String.utf8Encode_toList, List.utf8Encode, List.size_toByteArray, List.length_flatMap]

theorem Text.length_le_of_ofBytes? {bytes : ByteArray} {text : String}
    (h : ofBytes? bytes = some text) : text.length ≤ bytes.size := by
  unfold ofBytes? String.fromUTF8? at h
  split at h
  case isFalse => cases h
  case isTrue =>
    obtain rfl := Option.some.inj h
    exact length_le_size_toByteArray _

namespace FileSystem

open FileTree

/-- Whatever way is taken, it stays within the tree. -/
theorem within_of_follow? {whole tree : FileTree} {components : List Component}
    {above : List (String × FileTree)} {found : Found}
    (h : follow? components above tree = some found) (hTree : Within tree whole)
    (hAbove : ∀ entry ∈ above, Within entry.2 whole) : Within found.tree whole := by
  induction components generalizing above tree with
  | nil =>
    obtain rfl := Option.some.inj h
    exact hTree
  | cons component rest ih =>
    unfold follow? at h
    split at h
    · cases h
    · split at h
      case h_1 name _ =>
        obtain ⟨child, hChild, hRest⟩ := Option.bind_eq_some_iff.mp h
        have hBelow := (within_of_child? hChild).trans hTree
        exact ih hRest hBelow (List.forall_mem_cons.mpr ⟨hTree, hAbove⟩)
      case h_2 outer above =>
        -- back to a directory that the way has come through
        have hOuter := List.forall_mem_cons.mp hAbove
        exact ih h hOuter.1 hOuter.2
      case h_3 => exact ih h hTree hAbove

variable {fs : FileSystem} {path : FilePath}

theorem within_of_locate? {found : Found} (h : fs.locate? path = some found) :
    Within found.tree fs.tree := by
  unfold locate? at h
  split at h
  · cases h
  · obtain ⟨hFollow, -⟩ := Option.filter_eq_some_iff.mp h
    exact within_of_follow? hFollow .refl fun entry hEntry => absurd hEntry List.not_mem_nil

/-- What is read is the content of a file of the tree. -/
theorem mem_contents_of_readBytes? {content : ByteArray}
    (h : fs.readBytes? path = some content) : content ∈ fs.tree.contents := by
  obtain ⟨found, hFound, hContent⟩ := Option.bind_eq_some_iff.mp h
  refine (contents_sublist (within_of_locate? hFound)).subset ?_
  cases hTree : found.tree with
  | file other =>
    rw [hTree] at hContent
    obtain rfl := Option.some.inj hContent
    exact List.mem_singleton_self _
  | directory entries =>
    rw [hTree] at hContent
    cases hContent

/-- A text that is read is no longer than some file of the tree. -/
theorem exists_content_of_readText? {text : String} (h : fs.readText? path = some text) :
    ∃ content ∈ fs.tree.contents, text.length ≤ content.size := by
  obtain ⟨content, hContent, hText⟩ := Option.bind_eq_some_iff.mp h
  exact ⟨content, mem_contents_of_readBytes? hContent, Text.length_le_of_ofBytes? hText⟩

end FileSystem

end DebtGauge
