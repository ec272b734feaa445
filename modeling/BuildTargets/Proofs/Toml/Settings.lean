import BuildTargets.Proofs.FileSystem.Write
import BuildTargets.Proofs.Json.Records
import BuildTargets.Proofs.Toml.Tables
import BuildTargets.Settings.File

/-!
# Settings survive their file

Settings that were saved in a configuration file are loaded from it as they were: with all their
runners and excludes or with none, and whatever texts they hold.
-/

namespace BuildTargets

open Toml

/-! ## Tables of settings -/

namespace Toml

def Value.members : Value → List (String × Value)
  | .table members => members
  | _ => []

theorem Simple.isTable {value : Value} (simple : Simple value) : value.isTable = false := by
  cases simple <;> rfl

theorem Simple.writeTable {value : Value} (simple : Simple value) (path : List String) :
    writeTable path value = [] := by
  cases simple <;> rfl

theorem writeTables_simple (path : List String) {members : List (String × Value)}
    (simple : ∀ member ∈ members, Simple member.2) : writeTables path members = [] := by
  induction members with
  | nil => rfl
  | cons member members ih =>
    rw [writeTables, (simple member List.mem_cons_self).writeTable,
      ih fun other mem => simple other (List.mem_cons_of_mem _ mem)]
    rfl

theorem writeTable_simple {path : List String} {members : List (String × Value)}
    (named : path ≠ []) (simple : ∀ member ∈ members, Simple member.2) :
    writeTable path (.table members) = [Part.write ⟨path, members⟩] := by
  have plain : members.filter (fun member => !member.2.isTable) = members :=
    List.filter_eq_self.2 fun member mem => by rw [(simple member mem).isTable]; rfl
  have shown : (members.isEmpty && (path.isEmpty || !members.isEmpty)) = false := by
    cases members <;> simp [named]
  rw [Toml.writeTable, plain, writeTables_simple path simple, shown, if_neg Bool.false_ne_true,
    List.append_nil]
  simp [Part.write, named]

/-- A table of tables is written as these, without a header of its own. -/
theorem writeTable_grouped {outer : String} {tables : List (String × List (String × Value))}
    (some_table : tables ≠ []) (simple : ∀ table ∈ tables, ∀ member ∈ table.2, Simple member.2) :
    writeTable [outer] (.table (tables.map fun table => (table.1, .table table.2))) =
      (groupParts outer tables).map Part.write := by
  have plain : (tables.map fun table => (table.1, Value.table table.2)).filter
      (fun member => !member.2.isTable) = [] :=
    List.filter_eq_nil_iff.2 fun member mem => by
      obtain ⟨table, -, rfl⟩ := List.mem_map.1 mem
      simp [Value.isTable]
  have inner : ∀ others : List (String × List (String × Value)),
      (∀ table ∈ others, ∀ member ∈ table.2, Simple member.2) →
      writeTables [outer] (others.map fun table => (table.1, .table table.2)) =
        (groupParts outer others).map Part.write := by
    intro others simple
    induction others with
    | nil => rfl
    | cons table others ih =>
      rw [List.map_cons, writeTables, ih fun other mem => simple other (List.mem_cons_of_mem _ mem),
        writeTable_simple (by simp) (simple table List.mem_cons_self)]
      rfl
  have hidden : (([] : List (String × Value)).isEmpty && ([outer].isEmpty ||
      !(tables.map fun table => (table.1, Value.table table.2)).isEmpty)) = true := by
    cases tables with
    | nil => exact absurd rfl some_table
    | cons table tables => rfl
  rw [Toml.writeTable, plain, inner tables simple, hidden, if_pos rfl, List.nil_append]

theorem Value.list?_texts (texts : List String) :
    (Value.array (texts.map .string)).list? text? = some texts :=
  mapM_read_map Value.string text? (fun _ => rfl) texts

end Toml

namespace RunnerSettings

theorem simple_toToml (settings : RunnerSettings) :
    ∀ member ∈ settings.toToml.members, Simple member.2 := by
  have patterns := Simple.texts settings.filePatterns
  have run := Simple.text settings.runCommand
  cases dryRun : settings.dryRunCommand with
  | none => simp [toToml, Value.members, dryRun, patterns, run]
  | some command => simp [toToml, Value.members, dryRun, patterns, run, Simple.text command]

theorem names_toToml (settings : RunnerSettings) :
    (settings.toToml.members.map Prod.fst).Nodup := by
  cases dryRun : settings.dryRunCommand <;> simp [toToml, Value.members, dryRun]

theorem ofToml?_toToml (settings : RunnerSettings) : ofToml? settings.toToml = some settings := by
  obtain ⟨filePatterns, runCommand, _ | dryRunCommand⟩ := settings
  · simp [ofToml?, toToml, Value.fields?, List.lookup_cons, Value.membersAreWithinRange,
      Value.list?_texts, Value.text?]
  · simp [ofToml?, toToml, Value.fields?, List.lookup_cons, Value.membersAreWithinRange,
      Value.list?_texts, Value.text?]

end RunnerSettings

namespace InlineSettings

theorem simple_toToml (settings : InlineSettings) :
    ∀ member ∈ settings.toToml.members, Simple member.2 := by
  simp [toToml, Value.members, Simple.bool, Simple.text]

theorem names_toToml (settings : InlineSettings) :
    (settings.toToml.members.map Prod.fst).Nodup := by
  simp [toToml, Value.members]

theorem ofToml?_toToml (settings : InlineSettings) : ofToml? settings.toToml = some settings := by
  simp [ofToml?, toToml, Value.fields?, List.lookup_cons, Value.membersAreWithinRange, Value.bool?,
    Value.variant?, Placement.ofText?_text]

end InlineSettings

namespace Settings

def runnerTables (settings : Settings) : List (String × List (String × Value)) :=
  settings.runners.entries.map fun runner => (runner.1, runner.2.toToml.members)

/-- The tables of a configuration file; the table of all runners is named if there are none. -/
def parts (settings : Settings) : List Part :=
  (if settings.runners.entries = [] then [⟨["runners"], []⟩]
    else groupParts "runners" settings.runnerTables) ++
  [⟨["inline_runner"], settings.inlineRunner.toToml.members⟩]

def leading (settings : Settings) : List (String × Value) :=
  [("excluded_folders", .array (settings.excludedFolders.map .string))]

theorem simple_leading (settings : Settings) : ∀ member ∈ settings.leading, Simple member.2 := by
  simp [leading, Simple.texts]

theorem plain_parts (settings : Settings) : ∀ part ∈ settings.parts, part.Plain := by
  intro part mem
  rcases List.mem_append.1 mem with mem | mem
  · split at mem
    · obtain rfl := List.mem_singleton.1 mem
      exact ⟨by simp, nofun⟩
    · obtain ⟨table, inside, rfl⟩ := List.mem_map.1 mem
      obtain ⟨runner, -, rfl⟩ := List.mem_map.1 inside
      exact ⟨by simp, runner.2.simple_toToml⟩
  · obtain rfl := List.mem_singleton.1 mem
    exact ⟨by simp, settings.inlineRunner.simple_toToml⟩

theorem writeTable_runners (settings : Settings) :
    writeTable ["runners"] (.table (settings.runners.entries.map fun runner =>
      (runner.1, runner.2.toToml))) =
      (if settings.runners.entries = [] then [⟨["runners"], []⟩]
        else groupParts "runners" settings.runnerTables).map Part.write := by
  split
  · next none =>
    rw [none]
    exact writeTable_simple (by simp) nofun
  · next inhabited =>
    have tables : settings.runners.entries.map (fun runner => (runner.1, runner.2.toToml)) =
        settings.runnerTables.map fun table => (table.1, Value.table table.2) := by
      rw [runnerTables, List.map_map]
      rfl
    rw [tables]
    refine writeTable_grouped (by simpa [runnerTables] using inhabited) fun table mem => ?_
    obtain ⟨runner, -, rfl⟩ := List.mem_map.1 mem
    exact runner.2.simple_toToml

theorem document_eq (settings : Settings) :
    settings.document = String.ofList ((settings.leading.flatMap writeLine ::
      settings.parts.map Part.write).intersperse ['\n']).flatten := by
  have inline : writeTable ["inline_runner"] settings.inlineRunner.toToml =
      [Part.write ⟨["inline_runner"], settings.inlineRunner.toToml.members⟩] :=
    writeTable_simple (by simp) settings.inlineRunner.simple_toToml
  have runners := settings.writeTable_runners
  have blocks : writeTable [] (.table settings.toToml) =
      settings.leading.flatMap writeLine :: settings.parts.map Part.write := by
    have tables : writeTables [] settings.toToml =
        writeTable ["runners"] (.table (settings.runners.entries.map fun runner =>
          (runner.1, runner.2.toToml))) ++
        writeTable ["inline_runner"] settings.inlineRunner.toToml := by
      rw [toToml, writeTables, writeTables, writeTables, writeTables]
      simp [writeTable]
    have plain : settings.toToml.filter (fun member => !member.2.isTable) = settings.leading := by
      simp [toToml, Value.isTable, InlineSettings.toToml, leading]
    rw [writeTable, tables, runners, inline, plain, parts, List.map_append]
    rfl
  rw [document, writeDocument, blocks]

/-! ## Reading the file -/

theorem distinct_runnerTables (settings : Settings) :
    (settings.runnerTables.map Prod.fst).Nodup := by
  have ascending := settings.runners.ascending
  rw [runnerTables, List.map_map, List.Nodup, List.pairwise_map]
  refine ascending.imp fun {first second} before same => ?_
  rw [show first.1 = second.1 from same] at before
  exact String.lt_irrefl _ before

/-- The runners are put together to one table, which is there even if it is empty. -/
theorem openIn_runners (settings : Settings) {known : Members}
    (fresh : known.lookup "runners" = none) :
    ∃ node, node.value = .table (settings.runners.entries.map fun runner =>
        (runner.1, runner.2.toToml)) ∧
      ((if settings.runners.entries = [] then [⟨["runners"], []⟩]
        else groupParts "runners" settings.runnerTables).map Part.read).foldlM Section.openIn
          known = some (known ++ [("runners", node)]) := by
  split
  · next none =>
    refine ⟨headed [], by rw [none]; rfl, ?_⟩
    have opened : Section.openIn known (Part.read ⟨["runners"], []⟩) =
        some (known ++ [("runners", headed [])]) := openTable_new "runners" fresh .nil
    simpa using opened
  · next inhabited =>
    refine ⟨.table .aboveHeader (grouped settings.runnerTables), ?_, ?_⟩
    · rw [Node.value, valuesOf_grouped, runnerTables, List.map_map]
      rfl
    · refine openIn_groupParts (by simpa [runnerTables] using inhabited) fresh
        settings.distinct_runnerTables fun table mem => ?_
      obtain ⟨runner, -, rfl⟩ := List.mem_map.1 mem
      exact runner.2.names_toToml

theorem fileHead_eq : ∃ first second : List Char,
    fileHead = String.ofList first ++ String.ofList second ∧
      areComments false (first ++ second) = true ∧ first.head? = some '#' :=
  ⟨_, _, rfl, by decide +kernel, rfl⟩

theorem reads_document (settings : Settings) :
    Reads (fileHead ++ settings.document).toList
      (assignmentsOf settings.leading, settings.parts.map Part.read) := by
  obtain ⟨first, second, head, comments, -⟩ := fileHead_eq
  have reads := (Reads.document settings.simple_leading settings.plain_parts).comments comments
  rw [head, document_eq]
  simpa using reads

theorem ne_mark (settings : Settings) (rest : List Char) :
    (fileHead ++ settings.document).toList ≠ '\ufeff' :: rest := by
  obtain ⟨first, second, head, -, hash⟩ := fileHead_eq
  intro mark
  obtain ⟨c, more, rfl⟩ := List.exists_cons_of_ne_nil (show first ≠ [] by rintro rfl; cases hash)
  rw [head] at mark
  cases hash
  simp at mark

theorem readDocument_document (settings : Settings) :
    Toml.readDocument (fileHead ++ settings.document) = some (.table [
      ("excluded_folders", .array (settings.excludedFolders.map .string)),
      ("runners", .table (settings.runners.entries.map fun runner =>
        (runner.1, runner.2.toToml))),
      ("inline_runner", settings.inlineRunner.toToml)]) := by
  have excludes : assignAll [] (assignmentsOf settings.leading) =
      some (complete settings.leading) := assignAll_assignmentsOf [] (by simp [leading])
  obtain ⟨node, value, runners⟩ := settings.openIn_runners
    (show (complete settings.leading).lookup "runners" = none by simp [leading, complete])
  have inline : Section.openIn (complete settings.leading ++ [("runners", node)])
      (Part.read ⟨["inline_runner"], settings.inlineRunner.toToml.members⟩) =
      some (complete settings.leading ++ [("runners", node)] ++
        [("inline_runner", headed settings.inlineRunner.toToml.members)]) :=
    openTable_new "inline_runner" (by simp [leading, complete, List.lookup_cons])
      settings.inlineRunner.names_toToml
  have sections : (settings.parts.map Part.read).foldlM Section.openIn
      (complete settings.leading) =
      some (complete settings.leading ++ [("runners", node)] ++
        [("inline_runner", headed settings.inlineRunner.toToml.members)]) := by
    rw [parts, List.map_append, List.foldlM_append, runners, Option.bind_eq_bind, Option.bind_some,
      List.map_singleton, List.foldlM_cons, inline]
    rfl
  have statements := settings.reads_document (2 * (fileHead ++ settings.document).toList.length + 2)
    (by omega)
  unfold Toml.readDocument
  split
  · next rest mark => exact absurd mark (settings.ne_mark rest)
  · dsimp only
    rw [statements, Option.bind_eq_bind, Option.bind_some]
    dsimp only
    rw [excludes, Option.bind_eq_bind, Option.bind_some]
    show ((settings.parts.map Part.read).foldlM Section.openIn
      (complete settings.leading)).bind _ = _
    rw [sections, Option.bind_some, Option.pure_def, valuesOf_append, valuesOf_append,
      valuesOf_complete]
    simp [valuesOf, value, headed, Node.value, leading, InlineSettings.toToml, Value.members]

theorem ofToml?_members (settings : Settings) :
    ofToml? (.table [
      ("excluded_folders", .array (settings.excludedFolders.map .string)),
      ("runners", .table (settings.runners.entries.map fun runner =>
        (runner.1, runner.2.toToml))),
      ("inline_runner", settings.inlineRunner.toToml)]) = some settings := by
  have runners : runnersOfToml? (.table (settings.runners.entries.map fun runner =>
      (runner.1, runner.2.toToml))) = some settings.runners := by
    rw [runnersOfToml?, mapM_read_map (fun runner => (runner.1, RunnerSettings.toToml runner.2)) _ _
      settings.runners.entries]
    · exact congrArg some settings.runners.ofList_entries
    · intro runner
      simp [RunnerSettings.ofToml?_toToml]
  simp [ofToml?, Value.fields?, List.lookup_cons, Value.membersAreWithinRange, Value.list?_texts,
    runners, InlineSettings.ofToml?_toToml]

/-- **Saved settings are loaded again.** After settings were saved at a path, they are loaded from
it as they were. -/
theorem load_of_save {path : Path} {settings : Settings} {files after : FileSystem}
    (saved : settings.save path files = (.ok (), after)) : load path after = .ok settings := by
  have written : files.writeBelow path (fileHead ++ settings.document).toUTF8 =
      (.ok (), after) := by
    unfold save at saved
    rcases write : files.writeBelow path (fileHead ++ settings.document).toUTF8 with
      ⟨_ | ⟨⟩, later⟩ <;> rw [write] at saved <;> cases saved
    rfl
  rw [load, FileSystem.readText_writeBelow written]
  dsimp only
  rw [readDocument_document, Option.bind_some, ofToml?_members]

/-- Settings without excludes and with one runner, whose name and texts hold quotes. -/
def quoted : Settings where
  runners := .ofList [("a.\"b\"", ⟨["'\n\"\"\"\\", ""], "'''\n\"", none⟩)]
  excludedFolders := []
  inlineRunner := ⟨false, .comment⟩

theorem quoted_loaded_again :
    ∃ after, quoted.save ⟨"config.toml"⟩ ⟨.directory [], []⟩ = (.ok (), after) ∧
      load ⟨"config.toml"⟩ after = .ok quoted := by
  have succeeds : (quoted.save ⟨"config.toml"⟩ ⟨.directory [], []⟩).1 = .ok () := by
    rfl
  exact ⟨_, Prod.ext succeeds rfl, load_of_save (Prod.ext succeeds rfl)⟩

end Settings

end BuildTargets
