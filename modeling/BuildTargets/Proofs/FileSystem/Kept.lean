import BuildTargets.Proofs.FileSystem.Write

/-!
# Files that are kept

Making directories leaves all files as they are, and writing a file leaves all others. A file that
is written where a path led nowhere is a new one, unless the path leads back with `..` out of a
directory that had to be made for it.
-/

namespace BuildTargets.FileSystem

variable {files after : FileSystem} {path : Path} {place : List String}
  {entries : List (String × Entry)}

/-- The place that a path names, whether or not there is anything. -/
def placeOf (files : FileSystem) (path : Path) : List String :=
  placeFrom files.workingDirectory path.components

/-- Every file is still there with the bytes that it had, except at some places. -/
structure KeepsFiles (except : List (List String)) (before after : FileSystem) : Prop where
  workingDirectory : after.workingDirectory = before.workingDirectory
  file : ∀ place content, place ∉ except → before.root.at? place = some (.file content) →
    after.root.at? place = some (.file content)

namespace KeepsFiles

variable {except : List (List String)}

theorem refl (except : List (List String)) (files : FileSystem) : KeepsFiles except files files :=
  ⟨rfl, fun _ _ _ there => there⟩

theorem trans {before between after : FileSystem} (first : KeepsFiles except before between)
    (second : KeepsFiles except between after) : KeepsFiles except before after where
  workingDirectory := second.workingDirectory.trans first.workingDirectory
  file place content kept there :=
    second.file place content kept (first.file place content kept there)

theorem weaken {before after : FileSystem} (keeps : KeepsFiles [] before after)
    (except : List (List String)) : KeepsFiles except before after where
  workingDirectory := keeps.workingDirectory
  file place content _ there := keeps.file place content List.not_mem_nil there

end KeepsFiles

/-! ## Changes in one directory -/

/-- What is put in a directory takes no file away but one that it replaces. -/
theorem keepsFiles_put (there : files.root.at? place = some (.directory entries)) {name : String}
    (free : (entries.lookup name).any Entry.isDirectory = false) (new : Entry)
    {except : List (List String)}
    (named : place ++ [name] ∈ except ∨ entries.lookup name = none) :
    KeepsFiles except files { files with root := files.root.put new (place ++ [name]) } := by
  refine ⟨rfl, fun other content kept held => Entry.file_at?_put there free new ?_ held⟩
  rintro rfl
  rcases named with mem | none
  · exact kept mem
  · rw [Entry.at?_concat there, none] at held
    cases held

theorem keepsFiles_makeDirectory {result : Except FileFault Unit}
    (h : files.makeDirectory path = (result, after)) : KeepsFiles [] files after := by
  match result, h with
  | .error cause, h =>
    obtain rfl := makeDirectory_eq_error h
    exact .refl _ _
  | .ok (), h =>
    obtain ⟨place, entries, name, parent, free, rfl⟩ := makeDirectory_eq_ok h
    obtain ⟨-, -, there, -⟩ := parentOf_eq_ok parent
    exact keepsFiles_put there (by rw [free]; rfl) _ (.inr free)

theorem keepsFiles_write {content : ByteArray} {result : Except FileFault Unit}
    (h : files.write path content = (result, after)) :
    KeepsFiles [files.placeOf path] files after := by
  match result, h with
  | .error cause, h =>
    obtain rfl := write_eq_error h
    exact .refl _ _
  | .ok (), h =>
    obtain ⟨place, entries, name, parent, -, free, rfl⟩ := write_eq_ok h
    obtain ⟨-, located, there, named⟩ := parentOf_eq_ok parent
    have leads : files.placeOf path = place ++ [name] :=
      placeFrom_of_parent (named name rfl).1 located
    exact keepsFiles_put there free _ (.inl (by rw [leads]; exact List.mem_singleton_self _))

/-! ## Directories that are made first -/

theorem keepsFiles_makeFirst {paths : List Path} {result : Except FileFault Unit}
    (h : files.makeFirst paths = (result, after)) : KeepsFiles [] files after := by
  induction paths generalizing files result after with
  | nil => cases h; exact .refl _ _
  | cons path above ih =>
    rw [makeFirst] at h
    split at h
    · cases h; exact .refl _ _
    · split at h
      · next made => cases h; exact keepsFiles_makeDirectory made
      · next first =>
        obtain rfl := makeDirectory_eq_error first
        split at h
        · next later => cases h; exact ih later
        · next later =>
          split at h
          · next made => cases h; exact (ih later).trans (keepsFiles_makeDirectory made)
          · next made =>
            have both := (ih later).trans (keepsFiles_makeDirectory made)
            split at h <;> cases h <;> exact both
      · next made =>
        have first := keepsFiles_makeDirectory made
        split at h <;> cases h <;> exact first

theorem keepsFiles_writeBelow {content : ByteArray} {result : Except FileFault Unit}
    (h : files.writeBelow path content = (result, after)) :
    KeepsFiles [files.placeOf path] files after := by
  unfold writeBelow at h
  split at h
  · next made =>
    cases h
    exact (keepsFiles_makeFirst made).weaken _
  · next made =>
    have first := keepsFiles_makeFirst made
    have second := keepsFiles_write h
    rw [placeOf, first.workingDirectory] at second
    exact (first.weaken _).trans second

/-! ## Files that are new -/

/-- Directories that are made for a path change nothing in where it leads: there is no `..` in it,
or all the directories that it goes through are there. -/
def Settled (files : FileSystem) (path : Path) : Prop :=
  .up ∉ path.components ∨
    ∃ place, files.locate files.workingDirectory path.components.dropLast = .ok place

/-- A path leads to a file at the place that it names, if the directories above can be followed. -/
theorem contains_of_placeOf {parent : List String} {name : String} {content : ByteArray}
    (fault : pathFault? path = none) (asks : asksForDirectory path = false)
    (last : path.components.getLast? = some (.name name)) (short : name.utf8ByteSize ≤ longestName)
    (located : files.locate files.workingDirectory path.components.dropLast = .ok parent)
    (there : files.root.at? (files.placeOf path) = some (.file content)) :
    files.contains path = true := by
  rw [placeOf, placeFrom_of_parent last located] at there
  have above : ∃ entries, files.root.at? parent = some (.directory entries) := by
    rw [Entry.at?_append] at there
    match held : files.root.at? parent with
    | none => simp [held] at there
    | some (.file _) => simp [held] at there
    | some (.directory entries) => exact ⟨entries, rfl⟩
  obtain ⟨entries, directory⟩ := above
  have held := there
  rw [Entry.at?_concat directory] at held
  have followed : files.locate files.workingDirectory path.components = .ok (parent ++ [name]) := by
    obtain ⟨before, components⟩ := List.getLast?_eq_some_iff.1 last
    rw [components, List.dropLast_concat] at located
    rw [components, locate_append, located]
    exact locate_name directory short (by rw [held]; rfl)
  rw [contains, entry?, lookup_of_locate fault followed there fun _ => asks]
  rfl

/-- **A file that is written where a settled path led nowhere replaces no other.** -/
theorem keepsFiles_writeBelow_of_not_contains {content : ByteArray} {result : Except FileFault Unit}
    (settled : files.Settled path) (free : files.contains path = false)
    (h : files.writeBelow path content = (result, after)) : KeepsFiles [] files after := by
  have keeps := keepsFiles_writeBelow h
  unfold writeBelow at h
  split at h
  · next made =>
    cases h
    exact keepsFiles_makeFirst made
  · next between made =>
    match result, h with
    | .error cause, h =>
      obtain rfl := write_eq_error h
      exact keepsFiles_makeFirst made
    | .ok (), h =>
      obtain ⟨place, entries, name, parent, asks, -, -⟩ := write_eq_ok h
      obtain ⟨fault, located, -, named⟩ := parentOf_eq_ok parent
      obtain ⟨last, short⟩ := named name rfl
      -- without `..` all that is made lies above the place, so it is made only if nothing was there
      have leads : (∃ parent, files.locate files.workingDirectory path.components.dropLast =
          .ok parent) ∨ files.root.at? (files.placeOf path) = none := by
        rcases settled with up | located
        · obtain ⟨parent, eq, above⟩ := exists_parent last
          rw [eq] at made
          rcases spares_makeFirst made fun other mem => (above other mem).below up with
            rfl | ⟨-, none, -⟩
          · exact .inl ⟨place, located⟩
          · exact .inr none
        · exact .inl located
      refine ⟨keeps.workingDirectory, fun other content' _ there => ?_⟩
      refine keeps.file other content' (fun mem => ?_) there
      obtain rfl := List.mem_singleton.1 mem
      rcases leads with ⟨parent, located⟩ | none
      -- a path that could be followed would have led to the file that is there
      · have led := contains_of_placeOf fault asks last short located there
        rw [free] at led
        cases led
      · rw [none] at there
        cases there

end BuildTargets.FileSystem
