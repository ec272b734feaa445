import BuildTargets.Workspace
import BuildTargets.Proofs.FileSystem.Search
import BuildTargets.Proofs.FileSystem.Spelling
import BuildTargets.Proofs.Grammar.Offsets
import BuildTargets.Proofs.Launch.Session
import BuildTargets.Proofs.Walk.Origin
import BuildTargets.Proofs.Walk.Reach

/-!
# Restoring undoes recording

As long as the documents of an occurrence do not change, its record leads back to it: the offset of
a target says which one it is, the grammars known from the start are found under their runners, and
the documents are read again at the paths that they carry.
-/

namespace BuildTargets

/-! ## Grammars and documents -/

theorem Grammars.builtin_get {runner : String} {grammar : Grammar}
    (h : builtin.get runner = .ok grammar) :
    (grammar = .make ∨ grammar = .just) ∧ builtin.get grammar.runner = .ok grammar := by
  have entries : builtin.byRunner.entries = [("just", .just), ("make", .make)] := by decide
  unfold get Dictionary.get? at h ⊢
  rw [entries] at h ⊢
  split at h
  · next found =>
    cases h
    rw [List.lookup_cons] at found
    split at found
    · cases found
      exact ⟨.inr rfl, rfl⟩
    · rw [List.lookup_cons] at found
      split at found
      · cases found
        exact ⟨.inl rfl, rfl⟩
      · cases found
  · cases h

namespace FileSystem

/-- A document as it is read at the path that it carries. -/
def Holds (files : FileSystem) (document : Document) : Prop :=
  files.openDocument document.path = .ok document

theorem holds_of_openDocument {files : FileSystem} {path : Path} {document : Document}
    (normal : path.normalize = path) (h : files.openDocument path = .ok document) :
    files.Holds document := by
  have carried := (openDocument_eq_ok h).1
  rw [normal] at carried
  rw [Holds, carried, h]

theorem Holds.eq_of_same {files : FileSystem} {document other : Document}
    (h : files.Holds document) (h' : files.Holds other)
    (same : document.path.normalize.same other.path.normalize = true) : document = other :=
  document_eq_of_normalize (Path.normalize_same_iff.1 same) h h'

end FileSystem

/-! ## Occurrences that can be restored -/

/-- The documents that an occurrence depends on: where it is declared, and if it is included, the
root and where its directive stands. -/
def Occurrence.documents : Occurrence → List Document
  | .direct target => [target.document]
  | .included target => [target.declared.document, target.root, target.site.document]

/-- A target of a file with a grammar known from the start, all of whose documents are held. -/
structure Occurrence.Listed (files : FileSystem) (occurrence : Occurrence) : Prop where
  grammar : Grammars.builtin.get occurrence.runner = .ok occurrence.grammar
  builtin : occurrence.grammar = .make ∨ occurrence.grammar = .just
  declared : occurrence.declared ∈
    TargetFile.targets ⟨occurrence.declared.document, occurrence.grammar⟩
  holds : ∀ document ∈ occurrence.documents, files.Holds document

theorem findIn?_ofOccurrence {occurrence : Occurrence} {files : FileSystem}
    (listed : occurrence.Listed files) (command : String) :
    (RunRecord.ofOccurrence occurrence command).findIn?
      ⟨occurrence.declared.document, occurrence.grammar⟩ = some occurrence.declared := by
  have found : (TargetFile.targets ⟨occurrence.declared.document, occurrence.grammar⟩).find?
      (fun other => other.offset == (RunRecord.ofOccurrence occurrence command).offset &&
        other.name == (RunRecord.ofOccurrence occurrence command).name) =
          some occurrence.declared :=
    TargetFile.find?_offset listed.builtin listed.declared
  rw [RunRecord.findIn?, found]

/-- **The record of an occurrence leads back to it** while its documents are as they were. -/
theorem restore_ofOccurrence {occurrence : Occurrence} {files : FileSystem}
    (listed : occurrence.Listed files) {documents : Path → Except Fault Document}
    (same : ∀ document ∈ occurrence.documents,
      documents document.path = files.openDocument document.path) (command : String) :
    ((RunRecord.ofOccurrence occurrence command).restore (fun path () => (documents path, ()))
      .builtin ()).1 = .ok occurrence := by
  have read : ∀ document ∈ occurrence.documents, documents document.path = .ok document :=
    fun document mem => (same document mem).trans (listed.holds document mem)
  have found := findIn?_ofOccurrence listed command
  have grammar : Grammars.builtin.get (RunRecord.ofOccurrence occurrence command).runner =
      .ok occurrence.grammar := listed.grammar
  rw [RunRecord.restore, grammar]
  cases occurrence with
  | direct target =>
    have declared : documents (RunRecord.ofOccurrence (.direct target) command).declaredIn =
        .ok target.document := read _ List.mem_cons_self
    dsimp only
    rw [declared]
    dsimp only
    rw [show target.document = (Occurrence.direct target).declared.document from rfl, found]
    rfl
  | included target =>
    have declared : documents (RunRecord.ofOccurrence (.included target) command).declaredIn =
        .ok target.declared.document := read _ List.mem_cons_self
    have root : documents target.root.path = .ok target.root :=
      read _ (List.mem_cons_of_mem _ List.mem_cons_self)
    have last : target.site.document ∈ (Occurrence.included target).documents :=
      List.mem_cons_of_mem _ (List.mem_cons_of_mem _ List.mem_cons_self)
    have origin : (RunRecord.ofOccurrence (.included target) command).includedFrom =
        some ⟨target.root.path, target.site.document.path, target.site.offset⟩ := rfl
    dsimp only
    rw [declared]
    dsimp only
    rw [show target.declared.document = (Occurrence.included target).declared.document from rfl,
      found, origin]
    dsimp only
    rw [root]
    dsimp only
    split
    · next together =>
      have site : target.site.document = target.root :=
        (listed.holds _ last).eq_of_same
          (listed.holds _ (List.mem_cons_of_mem _ List.mem_cons_self)) together
      obtain ⟨_, whole, place, _⟩ := target
      obtain rfl : place = whole := site
      rfl
    · rw [read _ last]
      rfl

/-! ## Occurrences of a workspace -/

section Workspace

variable {σ : Type} {workspace : Workspace σ} {tree : σ → FileSystem} {note : Remark → σ → σ}

/-- The walker of a workspace over some files finds paths in normal form and reads the documents
that the files hold. -/
theorem origins_ofFiles {walker : Walker σ} (source : walker.source = .ofFiles tree note)
    (keeps : ∀ remark state, tree (note remark state) = tree state) (files : FileSystem) :
    Walk.Origins walker (fun state => tree state = files) (fun path => path.normalize = path)
      files.Holds where
  find := by
    rintro base patterns excludes state answer later rfl find
    rw [source] at find
    cases find
    exact ⟨rfl, fun paths found path mem => FileSystem.normalize_of_mem_findFiles found mem⟩
  load := by
    rintro path state answer later rfl normal load
    rw [source] at load
    cases load
    exact ⟨rfl, fun document read => FileSystem.holds_of_openDocument normal read⟩
  note := by
    rintro remark state rfl
    rw [source]
    exact keeps remark state

/-- A file that was opened has a grammar known from the start, and its document is held. -/
theorem Workspace.open?_ofFiles (source : workspace.source = .ofFiles tree note)
    (grammars : workspace.grammars = .builtin) {path : Path} {state opened : σ} {file : TargetFile}
    (h : workspace.open? path state = (.ok (some file), opened)) :
    opened = state ∧ (tree state).Holds file.document ∧
      Grammars.builtin.get file.grammar.runner = .ok file.grammar ∧
      (file.grammar = .make ∨ file.grammar = .just) := by
  unfold open? at h
  rw [source, grammars] at h
  split at h
  · cases h
  · next document later load =>
    obtain ⟨read, rfl⟩ := Prod.mk.inj load
    have normal : (workspace.resolve path).normalize = workspace.resolve path :=
      Path.normalize_normalize _
    have held := FileSystem.holds_of_openDocument normal read
    obtain ⟨detected, rfl⟩ := Prod.mk.inj h
    unfold TargetFile.detect at detected
    split at detected
    · cases detected
    · next runner _ =>
      cases get : Grammars.builtin.get runner with
      | error cause =>
        rw [get] at detected
        cases detected
      | ok grammar =>
        rw [get] at detected
        obtain rfl := Option.some.inj (Except.ok.inj detected)
        obtain ⟨builtin, again⟩ := Grammars.builtin_get get
        exact ⟨rfl, held, again, builtin⟩

theorem Walker.mem_allTargets {walker : Walker σ} {root : TargetFile} {state : σ}
    {occurrence : Occurrence} (h : occurrence ∈ (walker.allTargets root state).1) :
    (∃ target ∈ root.targets, occurrence = .direct target) ∨
      ∃ target ∈ (walker.targetsThrough root root.edges (fun _ => true) none state).1,
        occurrence = .included target := by
  rw [allTargets, occurrences] at h
  rcases List.mem_append.1 h with direct | included
  · obtain ⟨target, mem, rfl⟩ := List.mem_map.1 (List.mem_of_mem_filter direct)
    exact .inl ⟨target, mem, rfl⟩
  · obtain ⟨target, mem, rfl⟩ := List.mem_map.1 included
    exact .inr ⟨target, mem, rfl⟩

theorem Occurrence.listed_direct {files : FileSystem} {file : TargetFile}
    (held : files.Holds file.document)
    (get : Grammars.builtin.get file.grammar.runner = .ok file.grammar)
    (builtin : file.grammar = .make ∨ file.grammar = .just) {target : Target}
    (mem : target ∈ file.targets) : (Occurrence.direct target).Listed files := by
  obtain ⟨header, -, rfl⟩ := List.mem_map.1 mem
  exact ⟨get, builtin, mem, List.forall_mem_singleton.2 held⟩

theorem Workspace.listed_of_mem (source : workspace.source = .ofFiles tree note)
    (keeps : ∀ remark state, tree (note remark state) = tree state)
    (grammars : workspace.grammars = .builtin) {path : Path} {state opened : σ} {file : TargetFile}
    (opens : workspace.open? path state = (.ok (some file), opened)) {occurrence : Occurrence}
    (h : occurrence ∈ (workspace.walker.allTargets file opened).1) :
    occurrence.Listed (tree state) := by
  obtain ⟨rfl, held, get, builtin⟩ := workspace.open?_ofFiles source grammars opens
  rcases Walker.mem_allTargets h with ⟨target, mem, rfl⟩ | ⟨target, mem, rfl⟩
  · exact Occurrence.listed_direct held get builtin mem
  · have origins : Walk.Origins workspace.walker (fun state => tree state = tree opened)
        (fun path => path.normalize = path) (tree opened).Holds :=
      origins_ofFiles source keeps (tree opened)
    obtain ⟨included, descends, items⟩ := origins.mem_gather rfl mem
    obtain ⟨declared, listed, rfl⟩ := List.mem_map.1 (List.mem_of_mem_filter items)
    obtain ⟨header, -, rfl⟩ := List.mem_map.1 listed
    have site : (tree opened).Holds included.site.document := by
      rcases descends.site with root | read
      · rw [root]
        exact held
      · exact read
    refine ⟨?_, ?_, listed, ?_⟩
    · show Grammars.builtin.get included.file.grammar.runner = .ok included.file.grammar
      rw [descends.grammar]
      exact get
    · show included.file.grammar = _ ∨ included.file.grammar = _
      rw [descends.grammar]
      exact builtin
    · rintro document (_ | ⟨_, _ | ⟨_, _ | ⟨_, ⟨⟩⟩⟩⟩)
      · exact descends.document
      · exact held
      · exact site

end Workspace

/-! ## Running again what was run -/

namespace Step

theorem record_of_run {folder : Path} {run : Step} {before : Session FileSystem}
    {target : Occurrence} {launch : Launch} (runs : run.operation = .run target)
    (launched : run.launch? (RunRecord.fileStore folder) before.kept = some launch) :
    launch.record = .ofOccurrence target launch.command.text ∧
      (run.perform (RunRecord.fileStore folder) before).2.kept.readText
        (RunRecord.filePath folder) = .ok launch.record.toJson.pretty := by
  have prepared := prepare_of_launch? launched
  have asked : run.prepare (RunRecord.fileStore folder) before.kept =
      run.launch (RunRecord.fileStore folder) target true := by
    rw [prepare, runs]
  rw [asked] at prepared
  obtain ⟨rfl, recorded, -⟩ := launch_eq_ok prepared
  obtain ⟨after, save, performed⟩ := save_of_launch? launched recorded
  rw [performed]
  exact ⟨rfl, RunRecord.readText_saveIn save⟩

theorem render_run {σ : Type} {launcher : Launcher σ} {target : Occurrence}
    {runner : RunnerSettings} (usable : launcher.settings.runner target.runner = .ok runner) :
    ∃ command, launcher.render target .run = .ok command := by
  rw [Launcher.render, usable]
  exact ⟨_, rfl⟩

theorem last_of_stored {S : Type} {store : Store S} {step : Step} {kept : S} {record : RunRecord}
    {target : Occurrence} (stored : store.stored kept = .ok (some record))
    (restored : (record.restore (fun path () => (step.documents path, ())) step.grammars ()).1 =
      .ok target) :
    step.last store kept = .ok (some target) := by
  rw [last, stored]
  dsimp only
  rw [restored]
  rfl

theorem rerun_of_save {S : Type} {store : Store S} {step : Step} {session : Session S}
    {target : Occurrence} {command : Command} {after : S} (operation : step.operation = .rerun)
    (last : step.last store session.kept = .ok (some target))
    (rendered : (step.launcher store).render target .run = .ok command)
    (save : store.save (.ofOccurrence target command.text) session.kept = (.ok (), after)) :
    step.perform store session =
      (.rerun ((step.outcome command).map some), ⟨after, session.executed ++ [command]⟩) := by
  rw [perform_rerun operation last, run_of_save rendered save]
  rfl

end Step

/-- A record that takes the place of one that could be read can be read in turn. -/
theorem RunRecord.resave {folder : Path} {files : FileSystem} {record : RunRecord}
    (read : files.readText (filePath folder) = .ok record.toJson.pretty) (fits : record.Fits)
    (command : String) :
    ∃ after, (fileStore folder).save { record with command } files = (.ok (), after) ∧
      (fileStore folder).stored after = .ok (some { record with command }) := by
  obtain ⟨after, save⟩ := saveIn_of_readText read { record with command }
  exact ⟨after, save, loadFrom_of_readText fits (readText_saveIn save)⟩

/-- **Restoring undoes recording.** Where an occurrence of an opened file was run and recorded in a
state folder, and neither the record nor its documents were changed by anything else, the last
target is that occurrence again; and running it again, by any settings in which its runner can be
used, hands the executor what the occurrence is rendered to by these settings, and stores the same
record but for the command. -/
theorem rerun_restores_occurrence {σ : Type} (workspace : Workspace σ) (tree : σ → FileSystem)
    (note : Remark → σ → σ) (source : workspace.source = .ofFiles tree note)
    (keeps : ∀ remark state, tree (note remark state) = tree state)
    (grammars : workspace.grammars = .builtin) (path : Path) (state opened : σ) (file : TargetFile)
    (opens : workspace.open? path state = (.ok (some file), opened)) (target : Occurrence)
    (listed : target ∈ (workspace.walker.allTargets file opened).1 ∨
      ∃ line declared, file.targetAtLine? line = some declared ∧ target = .direct declared)
    (folder : Path) (run : Step) (before : Session FileSystem) (launch : Step.Launch)
    (runs : run.operation = .run target)
    (launched : run.launch? (RunRecord.fileStore folder) before.kept = some launch)
    (fits : launch.record.Fits) (later : FileSystem)
    (kept : later.readText (RunRecord.filePath folder) =
      (run.perform (RunRecord.fileStore folder) before).2.kept.readText (RunRecord.filePath folder))
    (same : ∀ document ∈ target.documents,
      later.openDocument document.path = (tree state).openDocument document.path)
    (settings : Settings) (runner : RunnerSettings)
    (usable : settings.runner target.runner = .ok runner)
    (outcome : Command → Except Fault Outcome) (executed : List Command) :
    let store := RunRecord.fileStore folder
    let ask : Operation → Step := fun operation =>
      ⟨settings, later.openDocument, .builtin, outcome, operation⟩
    let now : Session FileSystem := ⟨later, executed⟩
    (ask .lastTarget).perform store now = (.target (.ok (some target)), now) ∧
      ∃ command after, ((ask .rerun).launcher store).render target .run = .ok command ∧
        (ask .rerun).perform store now =
          (.rerun ((outcome command).map some), ⟨after, executed ++ [command]⟩) ∧
        store.stored after = .ok (some { launch.record with command := command.text }) := by
  intro store ask now
  have restorable : target.Listed (tree state) := by
    rcases listed with mem | ⟨line, declared, found, rfl⟩
    · exact Workspace.listed_of_mem source keeps grammars opens mem
    · obtain ⟨-, held, get, builtin⟩ := workspace.open?_ofFiles source grammars opens
      exact Occurrence.listed_direct held get builtin (List.mem_of_find?_eq_some found)
  obtain ⟨record, written⟩ := Step.record_of_run runs launched
  have read := kept.trans written
  have restored := restore_ofOccurrence restorable same launch.command.text
  rw [← record] at restored
  have last : ∀ operation, (ask operation).last store later = .ok (some target) :=
    fun _ => Step.last_of_stored (RunRecord.loadFrom_of_readText fits read) restored
  obtain ⟨command, rendered⟩ : ∃ command,
      ((ask .rerun).launcher store).render target .run = .ok command := Step.render_run usable
  obtain ⟨after, save, stored⟩ := RunRecord.resave read fits command.text
  have again : ({ launch.record with command := command.text } : RunRecord) =
      .ofOccurrence target command.text := by
    rw [record]
    rfl
  refine ⟨?_, command, after, rendered, ?_, stored⟩
  · have answer : (ask .lastTarget).perform store now =
        (.target ((ask .lastTarget).last store later), now) := Step.perform_lastTarget rfl
    rw [answer, last]
  · rw [again] at save
    exact Step.rerun_of_save rfl (last .rerun) rendered save

def sameName : FileSystem where
  root := .directory
    [("Makefile", .file "include tasks.mk\n".toUTF8), ("tasks.mk", .file "all:\nall:\n".toUTF8)]
  workingDirectory := []

def sameNameRoot : TargetFile := ⟨⟨⟨"Makefile"⟩, "include tasks.mk\n"⟩, .make⟩

def secondTarget : Occurrence :=
  .included ⟨⟨⟨⟨"tasks.mk"⟩, "all:\nall:\n"⟩, .make, ⟨"all", "", 5, 5⟩⟩, sameNameRoot.document,
    ⟨sameNameRoot.document, 0⟩⟩

def sameNameWorkspace : Workspace FileSystem where
  root := ⟨"."⟩
  settings := .standard
  grammars := .builtin
  source := .ofFiles id fun _ files => files
  limit := 2

def runSecond : Step where
  settings := .standard
  documents := sameName.openDocument
  grammars := .builtin
  outcome _ := .ok ⟨none⟩
  operation := .run secondTarget

/-- The second of two targets of one name is found again, not the first. -/
theorem second_target_restored :
    let store := RunRecord.fileStore ⟨"state"⟩
    let after := (runSecond.perform store ⟨sameName, []⟩).2
    let ask : Step := ⟨.standard, after.kept.openDocument, .builtin, runSecond.outcome, .lastTarget⟩
    secondTarget ∈ (sameNameWorkspace.walker.allTargets sameNameRoot sameName).1 ∧
      (ask.perform store after).1 = .target (.ok (some secondTarget)) := by
  intro store after ask
  have opens : sameNameWorkspace.open? ⟨"Makefile"⟩ sameName =
      (.ok (some sameNameRoot), sameName) := Prod.ext (by decide +kernel) rfl
  have walked : Walk.filesWithin? sameNameWorkspace.walker 5
      (Walk.start sameNameRoot sameNameRoot.edges true []) sameName =
        some [⟨⟨⟨⟨"tasks.mk"⟩, "all:\nall:\n"⟩, .make⟩, ⟨sameNameRoot.document, 0⟩, 1⟩] := by
    decide +kernel
  have listed : secondTarget ∈ (sameNameWorkspace.walker.allTargets sameNameRoot sameName).1 := by
    obtain ⟨final, ends⟩ := Walk.ends_of_filesWithin? walked
    rw [Walker.allTargets_eq ends (by decide)]
    decide +kernel
  obtain ⟨launch, launched⟩ : ∃ launch, runSecond.launch? store sameName = some launch :=
    Option.isSome_iff_exists.1 (by decide +kernel)
  have fits : launch.record.Fits :=
    (show ∀ launch ∈ runSecond.launch? store sameName, launch.record.Fits by decide +kernel) _
      launched
  have same : ∀ document ∈ secondTarget.documents,
      after.kept.openDocument document.path = sameName.openDocument document.path := by
    decide +kernel
  obtain ⟨runner, usable⟩ : ∃ runner,
      Settings.standard.runner secondTarget.runner = .ok runner := ⟨_, rfl⟩
  have restored := rerun_restores_occurrence sameNameWorkspace id (fun _ files => files) rfl
    (fun _ _ => rfl) rfl ⟨"Makefile"⟩ sameName sameName sameNameRoot opens secondTarget
    (.inl listed) ⟨"state"⟩ runSecond ⟨sameName, []⟩ launch rfl launched fits after.kept rfl same
    .standard runner usable runSecond.outcome after.executed
  exact ⟨listed, congrArg Prod.fst restored.1⟩

end BuildTargets
