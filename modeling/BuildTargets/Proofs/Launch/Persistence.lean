import BuildTargets.Proofs.Launch.Store

/-!
# What is kept in Json

Everything the program keeps or prints in Json is read back as it was, from a text on one line as
from one on several. For the file of the last run this means: whatever stood there, and however
often runs were saved, it holds the record that was saved last.
-/

namespace BuildTargets

/-! ## Texts of values -/

namespace Json.Value

/-- The value is read back from its texts, the one without blanks and the one with lines. -/
def KeepsTexts {α : Type} (toJson : α → Value) (ofJson? : Value → Option α) (value : α) : Prop :=
  (read (toJson value).compact).bind ofJson? = some value ∧
    (read (toJson value).pretty).bind ofJson? = some value

theorem KeepsTexts.of_plain {α : Type} {toJson : α → Value} {ofJson? : Value → Option α}
    {value : α} (plain : (toJson value).Plain) (back : ofJson? (toJson value) = some value) :
    KeepsTexts toJson ofJson? value := by
  refine ⟨?_, ?_⟩
  · rw [read_compact plain]
    exact back
  · rw [read_pretty plain]
    exact back

end Json.Value

/-! ## Saves one after another -/

namespace RunRecord

/-- Saves records in order, whether or not those before could be saved. -/
def saveAll (folder : Path) : List RunRecord → FileSystem → List (Except Fault Unit) × FileSystem
  | [], files => ([], files)
  | record :: records, files =>
    let (result, files) := saveIn folder record files
    let (results, files) := saveAll folder records files
    (result :: results, files)

theorem saveAll_cons {folder : Path} {record : RunRecord} {records : List RunRecord}
    {files after last : FileSystem} {result : Except Fault Unit}
    {results : List (Except Fault Unit)} (save : saveIn folder record files = (result, after))
    (saves : saveAll folder records after = (results, last)) :
    saveAll folder (record :: records) files = (result :: results, last) := by
  rw [saveAll, save]
  dsimp only
  rw [saves]

theorem readText_saveAll_of_readText {folder : Path} {record : RunRecord}
    {records : List RunRecord} {files : FileSystem} {text : String}
    (readable : files.readText (filePath folder) = .ok text) :
    (saveAll folder (records ++ [record]) files).2.readText (filePath folder) =
      .ok record.toJson.pretty := by
  induction records generalizing files text with
  | nil =>
    obtain ⟨after, save⟩ := saveIn_of_readText readable record
    rw [List.nil_append, saveAll_cons save rfl]
    exact readText_saveIn save
  | cons first records ih =>
    obtain ⟨after, save⟩ := saveIn_of_readText readable first
    rw [List.cons_append, saveAll_cons save rfl]
    exact ih (readText_saveIn save)

/-- The first record that is saved makes the file readable, so all that follow are saved. -/
theorem readText_saveAll {folder : Path} {record : RunRecord} {records : List RunRecord}
    {files : FileSystem} (some_saved : .ok () ∈ (saveAll folder (records ++ [record]) files).1) :
    (saveAll folder (records ++ [record]) files).2.readText (filePath folder) =
      .ok record.toJson.pretty := by
  induction records generalizing files with
  | nil =>
    match save : saveIn folder record files with
    | (result, after) =>
      rw [List.nil_append, saveAll_cons save rfl] at some_saved ⊢
      obtain rfl := List.mem_singleton.1 some_saved
      exact readText_saveIn save
  | cons first records ih =>
    match save : saveIn folder first files with
    | (.ok (), after) =>
      rw [List.cons_append, saveAll_cons save rfl]
      exact readText_saveAll_of_readText (readText_saveIn save)
    | (.error cause, after) =>
      rw [List.cons_append, saveAll_cons save rfl] at some_saved ⊢
      exact ih (by simpa using some_saved)

end RunRecord

/-! ## Everything that is kept -/

/-- **What is kept in Json is read back.** Records of runs and headers whose offsets have 64 bits,
and all commands, outcomes, settings, actions and places of the inline runner, are read back from
both of their texts. After any records were saved in order and at least one of the saves worked,
whatever the files held before, the last of these records is the one that is loaded. -/
theorem kept_values_read_back :
    (∀ record : RunRecord, record.Fits →
      Json.Value.KeepsTexts RunRecord.toJson RunRecord.ofJson? record) ∧
    (∀ command : Command, Json.Value.KeepsTexts Command.toJson Command.ofJson? command) ∧
    (∀ outcome : Outcome, Json.Value.KeepsTexts Outcome.toJson Outcome.ofJson? outcome) ∧
    (∀ header : Header, header.Fits →
      Json.Value.KeepsTexts Header.toJson Header.ofJson? header) ∧
    (∀ settings : Settings, Json.Value.KeepsTexts Settings.toJson Settings.ofJson? settings) ∧
    (∀ action : Action, Json.Value.KeepsTexts Action.toJson Action.ofJson? action) ∧
    (∀ placement : Placement,
      Json.Value.KeepsTexts Placement.toJson Placement.ofJson? placement) ∧
    (∀ (folder : Path) (records : List RunRecord) (record : RunRecord) (files : FileSystem),
      record.Fits → .ok () ∈ (RunRecord.saveAll folder (records ++ [record]) files).1 →
      RunRecord.loadFrom folder (RunRecord.saveAll folder (records ++ [record]) files).2 =
        .ok (some record)) := by
  refine ⟨fun record fits => ?_, fun command => ?_, fun outcome => ?_, fun header fits => ?_,
    fun settings => ?_, fun action => ?_, fun placement => ?_,
    fun folder records record files fits some_saved => ?_⟩
  · exact .of_plain record.plain_toJson (RunRecord.ofJson?_toJson fits)
  · exact .of_plain command.plain_toJson command.ofJson?_toJson
  · exact .of_plain outcome.plain_toJson outcome.ofJson?_toJson
  · exact .of_plain header.plain_toJson (Header.ofJson?_toJson fits)
  · exact .of_plain settings.plain_toJson settings.ofJson?_toJson
  · exact .of_plain (Json.Value.plain_ofText _) action.ofJson?_toJson
  · exact .of_plain (Json.Value.plain_ofText _) placement.ofJson?_toJson
  · exact RunRecord.loadFrom_of_readText fits (RunRecord.readText_saveAll some_saved)

def farthestRun : RunRecord where
  runner := "make"
  name := "all"
  declaredIn := ⟨"/work/rules.mk"⟩
  offset := UInt64.size - 1
  includedFrom := some ⟨⟨"/work/Makefile"⟩, ⟨"/work/Makefile"⟩, UInt64.size - 1⟩
  command := "make 'all'"

/-- A state folder whose file does not hold the record of a run. -/
def spoiledState : FileSystem where
  root := .directory [("state", .directory [("last-target.json", .file "[]".toUTF8)])]
  workingDirectory := []

theorem farthest_run_loaded :
    farthestRun.Fits ∧
    .ok () ∈ (RunRecord.saveAll ⟨"/state"⟩ ([{ farthestRun with name := "first" }] ++
      [farthestRun]) spoiledState).1 ∧
    RunRecord.loadFrom ⟨"/state"⟩ (RunRecord.saveAll ⟨"/state"⟩
      ([{ farthestRun with name := "first" }] ++ [farthestRun]) spoiledState).2 =
        .ok (some farthestRun) := by
  have fits : farthestRun.Fits := by decide
  have some_saved : .ok () ∈ (RunRecord.saveAll ⟨"/state"⟩
      ([{ farthestRun with name := "first" }] ++ [farthestRun]) spoiledState).1 := by
    decide +kernel
  exact ⟨fits, some_saved, kept_values_read_back.2.2.2.2.2.2.2 _ _ _ _ fits some_saved⟩
end BuildTargets
