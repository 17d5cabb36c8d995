import DebtGauge.Proofs.FilePath.Above
import DebtGauge.Proofs.FileTree.Parts
import Mathlib.Data.List.Infix

/-!
# Where paths lead

A path is followed part by part, from the root or from the working directory. Whatever way it
takes, it ends at an entry that has a place of its own, the names that lead there from the root.
A name at the end of a path is looked up in the directory that the path without it leads to; so a
file lies in the directory above it, and what is read under a name in a directory does not depend
on how the directory is spelled.

Main definitions and results:

* `FileTree.descendant?` — the entry that names lead to;
* `FileSystem.route`, `locate?_eq` — the parts that a path is followed over, and that nothing else
  decides where it leads;
* `follow?_concat_name` — a name at the end is looked up in the directory before it;
* `descendant?_of_follow?`, `isPart_of_mem_names` — the place of the entry that a path leads to;
* `exists_directory_of_file` — a file lies in the directory that the path above it leads to;
* `readBytes?_join`, `readBytes?_join_pathOf` — what is read under a name in a directory;
* `ancestors_pathOf` — the directories above a place.
-/

namespace DebtGauge

open FilePath (Component)

variable {fs : FileSystem} {path : FilePath} {components : List Component}
  {tree whole child : FileTree} {above : List (String × FileTree)} {name : String}
  {names : List String}

/-! ## Components and parts -/

/-- The lead of a path tells whether it is absolute. -/
theorem FilePath.isAbsolute_eq_of_lead {a b : FilePath} (h : a.lead = b.lead) :
    a.isAbsolute = b.isAbsolute := by
  unfold lead at h
  cases hFirst : a.isAbsolute <;> cases hSecond : b.isAbsolute <;> simp [hFirst, hSecond] at h ⊢

/-! ## Names -/

namespace FileTree

/-- The entry that names lead to. -/
def descendant? (tree : FileTree) : List String → Option FileTree
  | [] => some tree
  | name :: names => (tree.child? name).bind (·.descendant? names)

theorem descendant?_append (tree : FileTree) (names others : List String) :
    tree.descendant? (names ++ others) = (tree.descendant? names).bind (·.descendant? others) := by
  induction names generalizing tree with
  | nil => rfl
  | cons name names ih =>
    rw [List.cons_append, descendant?, descendant?, Option.bind_assoc]
    exact Option.bind_congr fun child _ => ih child

theorem descendant?_concat (tree : FileTree) (names : List String) (name : String) :
    tree.descendant? (names ++ [name]) = (tree.descendant? names).bind (·.child? name) := by
  rw [descendant?_append]
  refine Option.bind_congr fun directory _ => ?_
  show (directory.child? name).bind some = directory.child? name
  exact Option.bind_fun_some _

/-- Only directories have entries. -/
theorem isDirectory_of_child? (h : tree.child? name = some child) : tree.isDirectory = true := by
  cases tree with
  | file content => cases h
  | directory entries => rfl

/-- A way through a tree: the entries that it comes through, the last one first, each with the
name that is taken there. -/
inductive WayTo (whole : FileTree) : List (String × FileTree) → FileTree → Prop
  | start : WayTo whole [] whole
  | step {above : List (String × FileTree)} {tree child : FileTree} {name : String} :
    WayTo whole above tree → (Component.name name).IsPart → tree.child? name = some child →
      WayTo whole ((name, tree) :: above) child

/-- The names of a way lead to where it ends. -/
theorem WayTo.descendant? (h : WayTo whole above tree) :
    whole.descendant? (above.map Prod.fst).reverse = some tree := by
  induction h with
  | start => rfl
  | step _ _ hChild ih =>
    rw [List.map_cons, List.reverse_cons, descendant?_concat, ih]
    exact hChild

theorem WayTo.isPart (h : WayTo whole above tree) :
    ∀ name ∈ (above.map Prod.fst).reverse, (Component.name name).IsPart := by
  induction h with
  | start => exact fun name hName => absurd hName List.not_mem_nil
  | step _ hName _ ih =>
    rw [List.map_cons, List.reverse_cons]
    exact List.forall_mem_append.mpr ⟨ih, List.forall_mem_singleton.mpr hName⟩

end FileTree

namespace FileSystem

open FileTree

/-! ## Following parts -/

theorem follow?_eq_none (hTree : tree.isDirectory = false) (hNe : components ≠ []) :
    follow? components above tree = none := by
  cases components with
  | nil => exact absurd rfl hNe
  | cons component rest => simp [follow?, hTree]

/-- A root or a dot only asks for a directory. -/
theorem follow?_lead {lead : Component} (hLead : lead = .root ∨ lead = .current)
    (hTree : tree.isDirectory = true) :
    follow? (lead :: components) above tree = follow? components above tree := by
  rcases hLead with rfl | rfl <;> simp [follow?, hTree]

/-- Where a path leads depends on its parts alone, unless it has none and starts at a file. -/
theorem follow?_components (h : tree.isDirectory = true ∨ path.parts ≠ []) :
    follow? path.components [] tree = follow? path.parts [] tree := by
  rcases path.components_cases with hSame | ⟨lead, hLead, hSame⟩
  · rw [hSame]
  · rw [hSame]
    cases hTree : tree.isDirectory with
    | true => exact follow?_lead hLead hTree
    | false =>
      have hNe : path.parts ≠ [] := by simpa [hTree] using h
      rw [follow?_eq_none hTree (List.cons_ne_nil _ _), follow?_eq_none hTree hNe]

theorem follow?_parts_of_components {found : Found}
    (h : follow? path.components [] tree = some found) :
    follow? path.parts [] tree = some found := by
  rcases path.components_cases with hSame | ⟨lead, hLead, hSame⟩
  · rwa [hSame] at h
  · rw [hSame] at h
    cases hTree : tree.isDirectory with
    | true => rwa [follow?_lead hLead hTree] at h
    | false =>
      rw [follow?_eq_none hTree (List.cons_ne_nil _ _)] at h
      cases h

/-- A name at the end is looked up in the directory that the components before it lead to. -/
theorem follow?_concat_name (components : List Component) (above : List (String × FileTree))
    (tree : FileTree) (name : String) :
    follow? (components ++ [.name name]) above tree =
      (follow? components above tree).bind fun directory =>
        (directory.tree.child? name).map fun child => ⟨directory.names ++ [name], child⟩ := by
  -- on the components: whatever the first one is, the rest goes on from another way and tree
  induction components generalizing above tree with
  | nil =>
    rw [List.nil_append]
    cases tree with
    | file content => rfl
    | directory entries =>
      simp only [follow?, isDirectory, List.reverse_cons, List.map_cons, Option.map_eq_bind,
        Option.bind_some]
      rfl
  | cons component rest ih =>
    rw [List.cons_append]
    unfold follow?
    split
    · rfl
    · split
      case h_1 name' _ =>
        rw [Option.bind_assoc]
        exact Option.bind_congr fun child _ => ih _ child
      case h_2 => exact ih _ _
      case h_3 => exact ih _ _

/-- Behind `..` there is a directory. -/
theorem isDirectory_of_follow?_parent {found : Found}
    (hAbove : ∀ entry ∈ above, entry.2.isDirectory = true)
    (h : follow? (components ++ [.parent]) above tree = some found) :
    found.tree.isDirectory = true := by
  induction components generalizing above tree with
  | nil =>
    rw [List.nil_append] at h
    unfold follow? at h
    split at h
    · cases h
    · rename_i hTree
      have hDirectory : tree.isDirectory = true := by simpa using hTree
      cases above with
      | nil =>
        obtain rfl := Option.some.inj h
        exact hDirectory
      | cons entry above =>
        -- back to where the way has come from
        obtain rfl := Option.some.inj h
        exact hAbove _ (.head _)
  | cons component rest ih =>
    rw [List.cons_append] at h
    unfold follow? at h
    split at h
    · cases h
    · rename_i hTree
      have hDirectory : tree.isDirectory = true := by simpa using hTree
      split at h
      case h_1 name _ =>
        obtain ⟨child, -, hRest⟩ := Option.bind_eq_some_iff.mp h
        exact ih (List.forall_mem_cons.mpr ⟨hDirectory, hAbove⟩) hRest
      case h_2 outer above => exact ih (List.forall_mem_cons.mp hAbove).2 h
      case h_3 => exact ih hAbove h

/-- Whatever is found, there is a way to it over names. -/
theorem exists_wayTo_of_follow? {found : Found} (hParts : ∀ c ∈ components, c.IsPart)
    (h : follow? components above tree = some found) (hWay : WayTo whole above tree) :
    ∃ passed, WayTo whole passed found.tree ∧ found.names = (passed.map Prod.fst).reverse := by
  induction components generalizing above tree with
  | nil =>
    obtain rfl := Option.some.inj h
    exact ⟨above, hWay, rfl⟩
  | cons component rest ih =>
    obtain ⟨hPart, hRest⟩ := List.forall_mem_cons.mp hParts
    unfold follow? at h
    split at h
    · cases h
    · split at h
      case h_1 name _ =>
        obtain ⟨child, hChild, hBelow⟩ := Option.bind_eq_some_iff.mp h
        exact ih hRest hBelow (.step hWay hPart hChild)
      case h_2 outer above =>
        -- the way without its last step
        cases hWay with
        | step hOuter _ _ => exact ih hRest h hOuter
      case h_3 => exact ih hRest h hWay

/-- Names are followed to the entry that they lead to. -/
theorem follow?_names (names : List String) (tree : FileTree) :
    follow? (names.map .name) [] tree = (tree.descendant? names).map fun found => ⟨names, found⟩ := by
  induction names using List.reverseRecOn with
  | nil => rfl
  | append_singleton names name ih =>
    rw [List.map_append, List.map_singleton, follow?_concat_name, ih, descendant?_concat]
    cases tree.descendant? names <;> rfl

/-! ## What a path leads to -/

/-- The parts that a path is followed over, from the root of the tree. -/
def route (fs : FileSystem) (path : FilePath) : List Component :=
  if path.isAbsolute then path.parts else fs.workingDirectory.parts ++ path.parts

theorem isPart_of_mem_route {component : Component} (h : component ∈ fs.route path) :
    component.IsPart := by
  unfold route at h
  split at h
  · exact FilePath.isPart_of_mem_parts h
  · rcases List.mem_append.mp h with hAbove | hPath
    · exact FilePath.isPart_of_mem_parts hAbove
    · exact FilePath.isPart_of_mem_parts hPath

theorem parts_absolute (fs : FileSystem) (path : FilePath) :
    (if path.isAbsolute then path else fs.workingDirectory.join path).parts = fs.route path := by
  unfold route
  split
  case isTrue => rfl
  case isFalse hRelative => exact FilePath.parts_join (by simpa using hRelative)

/-- A path that goes on from another one is followed over more parts. -/
theorem route_append {longer : FilePath} (fs : FileSystem) (hLead : longer.lead = path.lead)
    (hParts : longer.parts = path.parts ++ components) :
    fs.route longer = fs.route path ++ components := by
  unfold route
  rw [FilePath.isAbsolute_eq_of_lead hLead, hParts]
  split
  · rfl
  · rw [List.append_assoc]

theorem route_join (fs : FileSystem) (path : FilePath) (h : (Component.name name).IsPart) :
    fs.route (path.join ⟨name⟩) = fs.route path ++ [.name name] := by
  have hRelative := FilePath.isAbsolute_name h
  refine route_append fs (FilePath.lead_join hRelative) ?_
  rw [FilePath.parts_join hRelative, FilePath.parts_name h]

theorem route_pathOf (fs : FileSystem) (h : ∀ name ∈ names, (Component.name name).IsPart) :
    fs.route (pathOf names) = names.map .name := by
  have hParts : ∀ c ∈ names.map Component.name, c.IsPart := List.forall_mem_map.mpr h
  rw [route, if_pos (FilePath.isAbsolute_pathOf names)]
  exact (FilePath.parts_ofComponents_root hParts).2

/-- The route of a path and its last character decide where it leads. -/
theorem locate?_eq (hText : path.text ≠ "")
    (h : fs.tree.isDirectory = true ∨ fs.route path ≠ []) :
    fs.locate? path = (follow? (fs.route path) [] fs.tree).filter fun found =>
      found.tree.isDirectory || !namesDirectory path := by
  rw [← parts_absolute] at h ⊢
  rw [locate?, if_neg hText]
  dsimp only
  rw [follow?_components h]

theorem follow?_of_locate? {found : Found} (h : fs.locate? path = some found) :
    follow? (fs.route path) [] fs.tree = some found ∧
      (found.tree.isDirectory = true ∨ namesDirectory path = false) := by
  unfold locate? at h
  split at h
  · cases h
  · obtain ⟨hFollow, hKind⟩ := Option.filter_eq_some_iff.mp h
    rw [← parts_absolute]
    exact ⟨follow?_parts_of_components hFollow, by simpa using hKind⟩

/-- Where a path leads to a directory, its last character does not matter. -/
theorem locate?_of_follow? {found : Found} (hText : path.text ≠ "")
    (h : follow? (fs.route path) [] fs.tree = some found)
    (hDirectory : found.tree.isDirectory = true) : fs.locate? path = some found := by
  have hTree : fs.tree.isDirectory = true ∨ fs.route path ≠ [] := by
    refine or_iff_not_imp_right.mpr fun hNil => ?_
    rw [not_not.mp hNil] at h
    obtain rfl := Option.some.inj h
    exact hDirectory
  rw [locate?_eq hText hTree, h, Option.filter_some, hDirectory, Bool.true_or, if_pos rfl]

/-- The entry that a path leads to is found at its place. -/
theorem descendant?_of_follow? {found : Found}
    (h : follow? (fs.route path) [] fs.tree = some found) :
    fs.tree.descendant? found.names = some found.tree := by
  obtain ⟨passed, hWay, hNames⟩ := exists_wayTo_of_follow? (fun _ => isPart_of_mem_route) h .start
  rw [hNames]
  exact hWay.descendant?

theorem isPart_of_mem_names {found : Found}
    (h : follow? (fs.route path) [] fs.tree = some found) :
    ∀ name ∈ found.names, (Component.name name).IsPart := by
  obtain ⟨passed, hWay, hNames⟩ := exists_wayTo_of_follow? (fun _ => isPart_of_mem_route) h .start
  rw [hNames]
  exact hWay.isPart

/-! ## Files and the directories they are in -/

/-- What a path leads to is a file if it is no directory. -/
theorem isFile_of_locate? {found : Found} (h : fs.locate? path = some found) :
    fs.isFile path = !found.tree.isDirectory := by
  rw [isFile, readBytes?, h, Option.bind_some]
  cases found.tree <;> rfl

/-- A path that may lead to a file ends in a part. -/
theorem exists_parts_of_namesDirectory (h : namesDirectory path = false) :
    ∃ init last, path.parts = init ++ [last] := by
  unfold namesDirectory at h
  split at h
  · rename_i piece hPiece
    obtain ⟨before, hPieces⟩ := List.getLast?_eq_some_iff.mp hPiece
    have hNe : ¬ (piece = [] ∨ piece = ['.']) := by simpa using h
    -- neither empty nor a dot, the last piece stands for a part
    obtain ⟨last, hLast⟩ : ∃ last, Component.ofPiece? piece = some last := by
      rw [Component.ofPiece?, if_neg hNe]
      exact ⟨_, (apply_ite some _ _ _).symm⟩
    refine ⟨before.filterMap Component.ofPiece?, last, ?_⟩
    rw [FilePath.parts, hPieces, List.filterMap_append, List.filterMap_cons_some hLast,
      List.filterMap_nil]
  · cases h

theorem text_ne_of_namesDirectory (h : namesDirectory path = false) : path.text ≠ "" := by
  intro hText
  rw [namesDirectory, hText] at h
  exact absurd h (by decide)

/-- A file lies in the directory that the path above it leads to, under the name that the path
ends in. -/
theorem exists_directory_of_file {found : Found} (h : fs.locate? path = some found)
    (hFile : found.tree.isDirectory = false) :
    ∃ above directory name, path.parent? = some above ∧
      found.names = directory.names ++ [name] ∧
      follow? (fs.route above) [] fs.tree = some directory ∧
      (above.text ≠ "" → fs.locate? above = some directory) := by
  obtain ⟨hFollow, hKind⟩ := follow?_of_locate? h
  have hEnd : namesDirectory path = false := by simpa [hFile] using hKind
  obtain ⟨init, last, hParts⟩ := exists_parts_of_namesDirectory hEnd
  obtain ⟨front, hRoute⟩ : ∃ front, fs.route path = front ++ [last] := by
    unfold route
    split
    · exact ⟨init, hParts⟩
    · exact ⟨fs.workingDirectory.parts ++ init, by rw [hParts, List.append_assoc]⟩
  have hMem : last ∈ path.parts := by
    rw [hParts]
    exact List.mem_append_right init (List.mem_singleton_self last)
  -- behind `..` there would be a directory
  have hNe : last ≠ .parent := by
    rintro rfl
    rw [hRoute] at hFollow
    rw [isDirectory_of_follow?_parent (fun entry hEntry => absurd hEntry List.not_mem_nil)
      hFollow] at hFile
    cases hFile
  obtain ⟨name, rfl⟩ := FilePath.Component.exists_name (FilePath.isPart_of_mem_parts hMem) hNe
  have hName : path.fileName? = some name := by
    rw [FilePath.fileName?_eq_some_iff, List.getLast?_append, hParts, List.getLast?_concat]
    rfl
  obtain ⟨above, hAbove, hLead, hConcat⟩ := FilePath.exists_parent_of_fileName? hName
  rw [route_append fs hLead.symm hConcat, follow?_concat_name] at hFollow
  obtain ⟨directory, hDirectory, hFound⟩ := Option.bind_eq_some_iff.mp hFollow
  obtain ⟨child, hChild, rfl⟩ := Option.map_eq_some_iff.mp hFound
  have hLocate (hText : above.text ≠ "") : fs.locate? above = some directory :=
    locate?_of_follow? hText hDirectory (isDirectory_of_child? hChild)
  exact ⟨above, directory, name, hAbove, rfl, hDirectory, hLocate⟩

/-! ## Reading under a name -/

/-- A path that ends in a name may lead to a file. -/
theorem namesDirectory_join (base : FilePath) (h : (Component.name name).IsPart) :
    namesDirectory (base.join ⟨name⟩) = false := by
  have hSingle : Text.splitOn '/' name.toList = [name.toList] := by
    have hPiece : ∀ piece ∈ [name.toList], '/' ∉ piece := List.forall_mem_singleton.mpr h.2
    have hSplit := List.splitOn_intercalate '/' hPiece (List.cons_ne_nil _ _)
    rwa [List.intercalate_singleton, ← Text.splitOn_eq] at hSplit
  -- whatever stands before it, the name is the last piece
  have hLast : (Text.splitOn '/' (base.join ⟨name⟩).text.toList).getLast? = some name.toList := by
    rw [FilePath.text_join (FilePath.isAbsolute_name h)]
    dsimp only
    split
    case isFalse => rw [List.append_assoc, List.singleton_append, Text.splitOn_append_cons, hSingle,
        List.getLast?_concat]
    case isTrue hEnd =>
      rcases List.eq_nil_or_concat' base.text.toList with hNil | ⟨init, last, hInit⟩
      · rw [hNil, List.nil_append, List.nil_append, hSingle, List.getLast?_singleton]
      · obtain rfl : last = '/' := by simpa [hInit] using hEnd
        rw [hInit, List.append_nil, List.append_assoc, List.singleton_append,
          Text.splitOn_append_cons, hSingle, List.getLast?_concat]
  have hPiece : Component.ofPiece? name.toList ≠ none := by
    rw [show Component.ofPiece? name.toList = some (.name name) from h.1]
    exact Option.some_ne_none _
  have hNe : ¬ (name.toList = [] ∨ name.toList = ['.']) :=
    fun hNone => hPiece (if_pos hNone)
  unfold namesDirectory
  rw [hLast]
  simpa using hNe

/-- What is read under a name in a directory is the file of this name there, if there is one. -/
theorem readBytes?_join (fs : FileSystem) (directory : FilePath)
    (h : (Component.name name).IsPart) : fs.readBytes? (directory.join ⟨name⟩) =
      (follow? (fs.route directory) [] fs.tree).bind fun found =>
        (found.tree.child? name).bind FileTree.content? := by
  have hEnd := namesDirectory_join directory h
  have hRoute : fs.route (directory.join ⟨name⟩) ≠ [] := by
    rw [route_join fs directory h]
    exact List.concat_ne_nil _ _
  rw [readBytes?, locate?_eq (text_ne_of_namesDirectory hEnd) (.inr hRoute),
    route_join fs directory h, follow?_concat_name, hEnd]
  cases follow? (fs.route directory) [] fs.tree with
  | none => rfl
  | some found =>
    rw [Option.bind_some, Option.bind_some]
    cases found.tree.child? name <;> simp [Option.filter]

/-- What is read under a name behind names is the file that they all lead to. -/
theorem readBytes?_join_pathOf (fs : FileSystem)
    (hNames : ∀ name ∈ names, (Component.name name).IsPart) (h : (Component.name name).IsPart) :
    fs.readBytes? ((pathOf names).join ⟨name⟩) =
      (fs.tree.descendant? (names ++ [name])).bind FileTree.content? := by
  rw [readBytes?_join fs _ h, route_pathOf fs hNames, follow?_names, descendant?_concat]
  cases fs.tree.descendant? names <;> rfl

/-! ## Directories above -/

/-- The path of a place without its last name is the path of the place above. -/
theorem parent?_pathOf_concat (hNames : ∀ name ∈ names, (Component.name name).IsPart)
    (h : (Component.name name).IsPart) :
    (pathOf (names ++ [name])).parent? = some (pathOf names) := by
  have hParts : ∀ c ∈ names.map Component.name ++ [.name name], c.IsPart :=
    List.forall_mem_append.mpr ⟨List.forall_mem_map.mpr hNames, List.forall_mem_singleton.mpr h⟩
  have hLonger : pathOf (names ++ [name]) =
      .ofComponents (.root :: (names.map .name ++ [.name name])) := by
    rw [pathOf, List.map_append, List.map_singleton]
  have hCut := FilePath.cut_ofComponents_root hParts (List.concat_ne_nil _ _)
  rw [hLonger, FilePath.parent?_of_cut hParts hCut]
  refine congrArg some (FilePath.eq_of_toList ?_)
  rw [pathOf, FilePath.text_ofComponents_root, String.toList_ofList, List.singleton_append]

/-- Above a place there are the places that its first names lead to. -/
theorem ancestors_pathOf (hNames : ∀ name ∈ names, (Component.name name).IsPart) (limit : Nat) :
    (pathOf names).ancestors limit = (names.inits.reverse.take limit).map pathOf := by
  induction limit generalizing names with
  | zero => rfl
  | succ limit ih =>
    rw [FilePath.ancestors]
    rcases List.eq_nil_or_concat' names with rfl | ⟨init, name, rfl⟩
    · rw [show (pathOf []).parent? = none by decide]
      simp
    · obtain ⟨hInit, hName⟩ := List.forall_mem_append.mp hNames
      have hUp : (init ++ [name]).inits.reverse = (init ++ [name]) :: init.inits.reverse := by
        simp [List.inits_append]
      rw [parent?_pathOf_concat hInit (hName name (List.mem_singleton_self name)), hUp,
        List.take_succ_cons, List.map_cons, ← ih hInit]

end FileSystem

end DebtGauge
