import BuildTargets.Proofs.FileSystem.Written

/-!
# What a directory holds

A directory holds a tree if everything in the tree is found under its names below the directory. All
spellings of a path below it, the normal form among them, lead to what the names lead to in the
tree.
-/

namespace BuildTargets

open BuildTargets.Path

/-! ## Trees -/

namespace Entry

def SameFiles (tree other : Entry) : Prop :=
  ∀ place, (tree.at? place).any isFile = (other.at? place).any isFile

/-- Only places where there is something in one of the trees have to be looked at. -/
theorem sameFiles_iff {tree other : Entry} : tree.SameFiles other ↔
    ∀ place ∈ [] :: (tree.descendants ++ other.descendants).map Prod.fst,
      (tree.at? place).any isFile = (other.at? place).any isFile := by
  refine ⟨fun same place _ => same place, fun same place => ?_⟩
  by_cases listed : place ∈ [] :: (tree.descendants ++ other.descendants).map Prod.fst
  · exact same place listed
  · rw [List.mem_cons, not_or, List.map_append, List.mem_append, not_or] at listed
    have nowhere : tree.at? place = none := by
      rw [Option.eq_none_iff_forall_ne_some]
      exact fun entry there =>
        listed.2.1 (List.mem_map.2 ⟨_, mem_descendants there listed.1, rfl⟩)
    have nowhere' : other.at? place = none := by
      rw [Option.eq_none_iff_forall_ne_some]
      exact fun entry there =>
        listed.2.2 (List.mem_map.2 ⟨_, mem_descendants there listed.1, rfl⟩)
    rw [nowhere, nowhere']

instance (tree other : Entry) : Decidable (tree.SameFiles other) :=
  decidable_of_iff _ sameFiles_iff.symm

/-- A tree in which each entry of a directory has a name of its own, which a path can give. -/
structure Proper (tree : Entry) : Prop where
  isName : ∀ below ∈ tree.descendants, ∀ name ∈ below.1, IsName name
  once : ∀ below ∈ tree.descendants, tree.at? below.1 = some below.2

theorem exists_at?_of_append {tree entry : Entry} {place rest : List String}
    (h : tree.at? (place ++ rest) = some entry) :
    ∃ inner, tree.at? place = some inner ∧ inner.at? rest = some entry := by
  rwa [at?_append, Option.bind_eq_some_iff] at h

theorem mem_descendantsOf_of_mem {entries : List (String × Entry)} {name : String} {inner : Entry}
    (mem : (name, inner) ∈ entries) : ([name], inner) ∈ descendantsOf entries := by
  induction entries with
  | nil => cases mem
  | cons first rest ih =>
    rw [descendantsOf]
    rcases List.mem_cons.1 mem with rfl | mem
    · exact List.mem_cons_self
    · exact List.mem_append_right _ (ih mem)

end Entry

namespace FileSystem

variable {files : FileSystem} {base path : Path} {place names more : List String}
  {tree entry : Entry}

/-- A directory holds a tree: everything in the tree is found under its names below it. -/
structure HoldsTree (files : FileSystem) (base : Path) (tree : Entry) : Prop where
  directory : tree.isDirectory = true
  proper : tree.Proper
  opens : ∀ place entry, tree.at? place = some entry →
    files.entry? (place.foldl child base) = some entry

theorem lookup_of_entry? (h : files.entry? path = some entry) :
    ∃ place, files.lookup path = .ok (place, entry) := by
  unfold entry? at h
  split at h
  · next place other found =>
    cases h
    exact ⟨place, found⟩
  · cases h

theorem entry?_of_lookup (h : files.lookup path = .ok (place, entry)) :
    files.entry? path = some entry := by
  unfold entry?
  rw [h]

namespace HoldsTree

theorem lookup_base (holds : files.HoldsTree base tree) :
    ∃ place, files.lookup base = .ok (place, tree) :=
  lookup_of_entry? (holds.opens [] tree rfl)

theorem isDirectory_base (holds : files.HoldsTree base tree) : files.isDirectory base = true := by
  obtain ⟨place, found⟩ := holds.lookup_base
  rw [isDirectory, entry?_of_lookup found]
  exact holds.directory

theorem isName (holds : files.HoldsTree base tree) (there : tree.at? names = some entry) :
    ∀ name ∈ names, IsName name := by
  by_cases top : names = []
  · rw [top]
    exact List.forall_mem_nil _
  · exact holds.proper.isName _ (Entry.mem_descendants there top)

theorem lookup (holds : files.HoldsTree base tree) (there : tree.at? names = some entry) :
    ∃ place, files.lookup (names.foldl child base) = .ok (place, entry) :=
  lookup_of_entry? (holds.opens names entry there)

theorem ne_nil (holds : files.HoldsTree base tree)
    (isFile : (tree.at? names).any Entry.isFile = true) : names ≠ [] := by
  rintro rfl
  have directory := holds.directory
  cases tree with
  | file content => cases directory
  | directory entries => cases isFile

theorem isName_of_isFile (holds : files.HoldsTree base tree)
    (isFile : (tree.at? names).any Entry.isFile = true) : ∀ name ∈ names, IsName name := by
  obtain ⟨entry, there, -⟩ := (Option.any_eq_true _ _).1 isFile
  exact holds.isName there

/-- Seen from the directory, a file that it holds is written as the names that lead to it. -/
theorem relativeTo_eq (holds : files.HoldsTree base tree)
    (isFile : (tree.at? names).any Entry.isFile = true) :
    (names.foldl child base.normalize).relativeTo base.normalize = ⟨"/".intercalate names⟩ := by
  have text := text_relativeTo_foldl_child base.normalize_normalize
    (holds.isName_of_isFile isFile) (holds.ne_nil isFile)
  generalize (names.foldl child base.normalize).relativeTo base.normalize = seen at text ⊢
  rw [← text]

end HoldsTree

/-! ## Spellings of what is held -/

theorem HoldsTree.lookup_child {name : String} (holds : files.HoldsTree base tree)
    (respells : Respells path (names.foldl child base))
    (there : tree.at? (names ++ [name]) = some entry) :
    ∃ place, files.lookup (child path name) = .ok (place, entry) := by
  have isName := List.forall_mem_append.1 (holds.isName there)
  obtain ⟨place, found⟩ := holds.lookup there
  rw [List.foldl_concat] at found
  exact ⟨place, respells.lookup_child (isName.2 name (List.mem_singleton_self _)) found⟩

section

variable (holds : files.HoldsTree base tree) (only : base.OnlyNames)

include holds only

theorem HoldsTree.bare : Bare base where
  filled := by
    obtain ⟨place, found⟩ := holds.lookup_base
    intro blank
    have fault := (lookup_eq_ok found).1
    rw [pathFault?, blank] at fault
    cases fault
  here := only.1

/-- A spelling of a path below the directory leads to what the names lead to in the tree. -/
theorem HoldsTree.at?_of_lookup (isName : ∀ name ∈ names, IsName name)
    (respells : Respells path (names.foldl child base))
    (found : files.lookup path = .ok (place, entry)) : tree.at? names = some entry := by
  obtain ⟨above, held⟩ := holds.lookup_base
  obtain ⟨-, located, there, -⟩ := lookup_eq_ok found
  obtain ⟨-, located', there', -⟩ := lookup_eq_ok held
  have slash : ∀ name ∈ names, '/' ∉ name.toList := fun name mem => (isName name mem).1
  obtain ⟨-, components, -⟩ := (holds.bare only).foldl_child slash
  rw [respells.components, components, filterMap_names isName, locate_append, located'] at located
  rw [locate_eq_placeFrom located, placeFrom_names, Entry.at?_append, there'] at there
  exact there

/-- Where there is something below a name, all spellings lead to the directory that it is in. -/
theorem HoldsTree.lookup_above {name : String} (respells : Respells path (names.foldl child base))
    (there : tree.at? (names ++ name :: more) = some entry) :
    ∃ place entries, files.lookup path = .ok (place, .directory entries) ∧
      tree.at? names = some (.directory entries) := by
  have isName := List.forall_mem_append.1 (holds.isName there)
  rw [List.forall_mem_cons] at isName
  rw [List.append_cons] at there
  obtain ⟨inner, next, -⟩ := Entry.exists_at?_of_append there
  obtain ⟨place, found⟩ := holds.lookup next
  rw [List.foldl_concat] at found
  obtain ⟨above, entries, -, held⟩ := respells.lookup_above isName.2.1 found
  exact ⟨above, entries, held, holds.at?_of_lookup only isName.1 respells held⟩

theorem HoldsTree.respells_normalize : Respells base.normalize base := by
  have bare := holds.bare only
  obtain ⟨start, first, directory, later, written⟩ := exists_written bare only
  exact written.respells_normalize bare only

/-- Below the normal form of the directory those names lead to files that do so in the tree. -/
theorem HoldsTree.isFile_iff (isName : ∀ name ∈ names, IsName name) :
    files.isFile (names.foldl child base.normalize) = true ↔
      (tree.at? names).any Entry.isFile = true := by
  have normal := holds.respells_normalize only
  constructor
  · intro isFile
    obtain ⟨place, content, found⟩ := isFile_eq_true isFile
    rw [holds.at?_of_lookup only isName (normal.foldl_child isName) found]
    rfl
  · intro isFile
    obtain ⟨entry, there, kind⟩ := (Option.any_eq_true _ _).1 isFile
    obtain ⟨front, name, rfl⟩ :=
      (List.eq_nil_or_concat names).resolve_left (holds.ne_nil isFile)
    rw [List.concat_eq_append] at isName there ⊢
    rw [List.forall_mem_append] at isName
    obtain ⟨place, found⟩ := holds.lookup_child (normal.foldl_child isName.1) there
    rw [List.foldl_concat, FileSystem.isFile, entry?_of_lookup found]
    exact kind

end

end FileSystem

end BuildTargets
