import BuildTargets.RunRecord.File
import BuildTargets.Proofs.FileSystem.Write
import BuildTargets.Proofs.Json.Records

/-!
# Stores for the last run

A store keeps the record of the last run: what was saved is what it holds from then on. Some stores
also go on holding what they held where a record could not be saved. The file of the last run in a
state folder is a store, and one of the second kind unless the path of the folder has `..` in it.
That exception is needed: the folder is made before the file is written, and a folder such as
`missing/..` leads nowhere before it is made, so that a record which cannot be written may still
uncover what lies at the path of the file.
-/

namespace BuildTargets

/-- Where the record of the last run is saved, and what is stored there in a state `S`. -/
structure Store (S : Type) where
  save : RunRecord → S → Except Fault Unit × S
  stored : S → Except Fault (Option RunRecord)

/-- A record that was saved is stored, if it `fits`. -/
structure Store.Saves {S : Type} (store : Store S) (fits : RunRecord → Prop) : Prop where
  saved : ∀ record kept after, fits record → store.save record kept = (.ok (), after) →
    store.stored after = .ok (some record)

/-- And one that could not be saved changes nothing in what is stored. -/
structure Store.Keeps {S : Type} (store : Store S) (fits : RunRecord → Prop) : Prop
    extends store.Saves fits where
  failed : ∀ record kept cause after, store.save record kept = (.error cause, after) →
    store.stored after = store.stored kept

namespace RunRecord

/-! ## The file of the last run -/

theorem components_filePath (folder : Path) :
    (filePath folder).components = folder.components ++ [.name "last-target.json"] := by
  have isName : Path.IsName "last-target.json" := by decide
  rw [filePath, folder.components_join_name isName]

theorem getLast?_components_filePath (folder : Path) :
    (filePath folder).components.getLast? = some (.name "last-target.json") := by
  rw [components_filePath, List.getLast?_concat]

theorem saveIn_eq {folder : Path} {record : RunRecord} {files after : FileSystem}
    {result : Except FileFault Unit}
    (h : files.writeBelow (filePath folder) record.toJson.pretty.toUTF8 = (result, after)) :
    saveIn folder record files = (result.mapError Fault.file, after) := by
  rw [saveIn, h]

theorem loadFrom_of_readText {folder : Path} {record : RunRecord} {files : FileSystem}
    (fits : record.Fits)
    (h : files.readText (filePath folder) = .ok record.toJson.pretty) :
    loadFrom folder files = .ok (some record) := by
  rw [loadFrom, if_pos (FileSystem.contains_of_readText h), h]
  dsimp only
  rw [read_pretty_toJson fits]

theorem readText_saveIn {folder : Path} {record : RunRecord} {files after : FileSystem}
    (h : saveIn folder record files = (.ok (), after)) :
    after.readText (filePath folder) = .ok record.toJson.pretty := by
  match write : files.writeBelow (filePath folder) record.toJson.pretty.toUTF8 with
  | (.error cause, after') =>
    rw [saveIn_eq write] at h
    cases h
  | (.ok (), after') =>
    rw [saveIn_eq write] at h
    obtain rfl := (Prod.mk.inj h).2
    exact FileSystem.readText_writeBelow write

/-- Where the record could be read, it can be saved again. -/
theorem saveIn_of_readText {folder : Path} {files : FileSystem} {text : String}
    (h : files.readText (filePath folder) = .ok text) (record : RunRecord) :
    ∃ after, saveIn folder record files = (.ok (), after) := by
  obtain ⟨after, write⟩ := FileSystem.writeBelow_of_readText (getLast?_components_filePath folder) h
    record.toJson.pretty.toUTF8
  exact ⟨after, saveIn_eq write⟩

theorem loadFrom_of_saveIn_error {folder : Path} {record : RunRecord} {files after : FileSystem}
    {cause : Fault} (up : .up ∉ folder.components)
    (h : saveIn folder record files = (.error cause, after)) :
    loadFrom folder after = loadFrom folder files := by
  match write : files.writeBelow (filePath folder) record.toJson.pretty.toUTF8 with
  | (.ok (), after') =>
    rw [saveIn_eq write] at h
    cases h
  | (.error cause', after') =>
    rw [saveIn_eq write] at h
    obtain rfl := (Prod.mk.inj h).2
    have up' : .up ∉ (filePath folder).components := by
      rw [components_filePath]
      simpa using up
    have spares := FileSystem.spares_writeBelow (getLast?_components_filePath folder) up' write
    rcases spares.contains with same | ⟨missing, missing'⟩
    · rw [same]
    · rw [loadFrom, loadFrom, if_neg (by simp [missing]), if_neg (by simp [missing'])]

/-- The file of the last run in a state folder as a store. -/
def fileStore (folder : Path) : Store FileSystem := ⟨saveIn folder, loadFrom folder⟩

theorem saves_fileStore (folder : Path) : (fileStore folder).Saves Fits where
  saved _ _ _ fits save := loadFrom_of_readText fits (readText_saveIn save)

/-- **The file of the last run keeps records**, also when one cannot be written, if the path of its
folder never turns back. -/
theorem keeps_fileStore {folder : Path} (up : .up ∉ folder.components) :
    (fileStore folder).Keeps Fits where
  toSaves := saves_fileStore folder
  failed _ _ _ _ save := loadFrom_of_saveIn_error up save

end RunRecord

end BuildTargets
