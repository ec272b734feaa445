import BuildTargets.Proofs.Launch.Restore

/-!
# Running again after edits

A record may be older than the documents it is restored in: its target has moved, or is gone and
another one has its name. Restoring settles on one target then. The record of running that one
leads to it again, so from the first restoring on nothing moves any more, as long as the documents
stay as they are.
-/

namespace BuildTargets

/-! ## Grammars -/

theorem Dictionary.lookup_insertEntry {α : Type} (key other : String) (value : α)
    (entries : List (String × α)) :
    (insertEntry key value entries).lookup other =
      if other = key then some value else entries.lookup other := by
  induction entries with
  | nil =>
    by_cases here : other = key
    · simp [insertEntry, here]
    · simp [insertEntry, List.lookup_cons, beq_eq_false_iff_ne.2 here, here]
  | cons first rest ih =>
    obtain ⟨name, old⟩ := first
    rw [insertEntry]
    by_cases here : other = key
    · subst here
      split
      · simp
      · split
        · simp
        · next different => simp [List.lookup_cons, ih, beq_eq_false_iff_ne.2 different]
    · have skipped : (other == key) = false := beq_eq_false_iff_ne.2 here
      rw [if_neg here] at ih ⊢
      split
      · simp [List.lookup_cons, skipped]
      · split
        · next same => simp [List.lookup_cons, skipped, ← same]
        · simp [List.lookup_cons, ih]

theorem Grammars.get?_ofList (grammars : List Grammar) (runner : String) :
    (ofList grammars).byRunner.get? runner =
      grammars.reverse.find? fun grammar => runner == grammar.runner := by
  induction grammars using List.reverseRecOn with
  | nil => rfl
  | append_singleton grammars last ih =>
    have put : (ofList (grammars ++ [last])).byRunner =
        (ofList grammars).byRunner.insert last.runner last := by
      simp [ofList, Dictionary.ofList]
    rw [put, List.reverse_append, List.reverse_singleton, List.singleton_append, List.find?_cons,
      Dictionary.get?, Dictionary.insert, Dictionary.lookup_insertEntry, ← Dictionary.get?, ih]
    by_cases here : runner = last.runner
    · simp [here]
    · simp [here, beq_eq_false_iff_ne.2 here]

theorem Grammars.runner_of_get {grammars : List Grammar} {runner : String} {grammar : Grammar}
    (h : (ofList grammars).get runner = .ok grammar) : grammar.runner = runner := by
  rw [get, get?_ofList] at h
  split at h
  · next found =>
    cases h
    have same := List.find?_some found
    exact (beq_iff_eq.1 same).symm
  · cases h

/-! ## Documents -/

/-- Documents carry the normal forms of the paths that they are read at, and have the same texts
there. -/
structure Refound (documents : Path → Except Fault Document) : Prop where
  carried : ∀ {path document}, documents path = .ok document → document.path = path.normalize
  again : ∀ {path document}, documents path = .ok document →
    ∃ other, documents path.normalize = .ok other ∧ other.text = document.text

variable {documents : Path → Except Fault Document}

theorem Refound.read_path (refound : Refound documents) {path : Path} {document : Document}
    (read : documents path = .ok document) : documents document.path = .ok document := by
  obtain ⟨other, again, text⟩ := refound.again read
  have same : other = document := by
    have carried := refound.carried again
    rw [Path.normalize_normalize, ← refound.carried read] at carried
    obtain ⟨_, _⟩ := other
    obtain ⟨_, _⟩ := document
    obtain rfl : _ = _ := carried
    obtain rfl : _ = _ := text
    rfl
  rw [refound.carried read, again, same]

/-! ## The target of a record -/

def IsFirst (wanted : Target → Prop) (targets : List Target) (target : Target) : Prop :=
  ∃ before behind, targets = before ++ target :: behind ∧ wanted target ∧
    ∀ other ∈ before, ¬ wanted other

theorem find?_eq_some_iff_isFirst {wanted : Target → Prop} {test : Target → Bool}
    (tests : ∀ target, test target = true ↔ wanted target) {targets : List Target}
    {target : Target} : targets.find? test = some target ↔ IsFirst wanted targets target := by
  rw [List.find?_eq_some_iff_append, IsFirst, tests]
  constructor
  · rintro ⟨here, before, behind, rfl, earlier⟩
    exact ⟨before, behind, rfl, here, fun other mem => by simpa [← tests] using earlier other mem⟩
  · rintro ⟨before, behind, rfl, here, earlier⟩
    exact ⟨here, before, behind, rfl, fun other mem => by simpa [← tests] using earlier other mem⟩

namespace RunRecord

variable {record : RunRecord} {grammars : Grammars} {targets : List Target} {target : Target}
  {occurrence : Occurrence}

/-- Which of the targets of a document a record stands for. -/
inductive StandsFor (record : RunRecord) (targets : List Target) (target : Target) : Prop where
  | inPlace (first : IsFirst (fun other => other.offset = record.offset ∧ other.name = record.name)
      targets target)
  | moved (gone : ∀ other ∈ targets, other.offset = record.offset → other.name ≠ record.name)
      (first : IsFirst (fun other => other.name = record.name) targets target)

theorem findIn?_eq_some_iff {file : TargetFile} :
    record.findIn? file = some target ↔ record.StandsFor file.targets target := by
  have inPlace := @find?_eq_some_iff_isFirst
    (fun other => other.offset = record.offset ∧ other.name = record.name)
    (fun other => other.offset == record.offset && other.name == record.name)
    (fun other => by rw [Bool.and_eq_true, beq_iff_eq, beq_iff_eq]) file.targets
  have moved := @find?_eq_some_iff_isFirst (fun other => other.name = record.name)
    (fun other => other.name == record.name) (fun other => beq_iff_eq) file.targets target
  unfold findIn? TargetFile.targetNamed?
  split
  · next there found =>
    constructor
    · rintro ⟨⟩
      exact .inPlace (inPlace.1 found)
    · rintro (first | ⟨gone, -⟩)
      · rw [← found, inPlace.2 first]
      · obtain ⟨before, behind, eq, ⟨offset, name⟩, -⟩ := inPlace.1 found
        exact absurd name (gone there (eq ▸ by simp) offset)
  · next none =>
    rw [moved]
    constructor
    · refine .moved fun other mem offset name => ?_
      have := List.find?_eq_none.1 none other mem
      simp [offset, name] at this
    · rintro (first | ⟨-, first⟩)
      · cases none.symm.trans (inPlace.2 first)
      · exact first

theorem StandsFor.name (h : record.StandsFor targets target) : target.name = record.name := by
  rcases h with ⟨_, _, _, ⟨_, name⟩, _⟩ | ⟨_, _, _, _, name, _⟩ <;> exact name

theorem StandsFor.mem (h : record.StandsFor targets target) : target ∈ targets := by
  rcases h with ⟨_, _, rfl, _, _⟩ | ⟨_, _, _, rfl, _, _⟩ <;> simp

theorem exists_standsFor {target : Target} {file : TargetFile} (mem : target ∈ file.targets)
    (name : target.name = record.name) : ∃ found, record.StandsFor file.targets found := by
  have named : (file.targetNamed? record.name).isSome := by
    rw [TargetFile.targetNamed?, List.find?_isSome]
    exact ⟨target, mem, beq_iff_eq.2 name⟩
  have found : (record.findIn? file).isSome := by
    unfold findIn?
    split
    · rfl
    · exact named
  obtain ⟨found, eq⟩ := Option.isSome_iff_exists.1 found
  exact ⟨found, findIn?_eq_some_iff.1 eq⟩

/-- **A record with the place and the name of the target that was found stands for it in turn**,
whichever of several targets of that name was found, and by which of the two ways. -/
theorem StandsFor.again (h : record.StandsFor targets target) {later : RunRecord}
    (offset : later.offset = target.offset) (name : later.name = target.name) :
    later.StandsFor targets target := by
  obtain ⟨before, behind, eq, earlier⟩ : ∃ before behind, targets = before ++ target :: behind ∧
      ∀ other ∈ before, ¬ (other.offset = target.offset ∧ other.name = target.name) := by
    have named := h.name
    rcases h with ⟨before, behind, eq, ⟨offset, -⟩, earlier⟩ | ⟨-, before, behind, eq, -, earlier⟩
    · exact ⟨before, behind, eq, by rwa [offset, named]⟩
    · exact ⟨before, behind, eq, fun other mem same => earlier other mem (same.2.trans named)⟩
  exact .inPlace ⟨before, behind, eq, ⟨offset.symm, name.symm⟩, by rwa [offset, name]⟩

/-! ## Restoring -/

/-- What a record is restored to, if nothing is missing. -/
inductive Restored (record : RunRecord) (documents : Path → Except Fault Document)
    (grammars : Grammars) : Occurrence → Prop where
  | direct {grammar : Grammar} {declared : Document} {target : Target}
      (known : grammars.get record.runner = .ok grammar)
      (read : documents record.declaredIn = .ok declared)
      (found : record.StandsFor (TargetFile.targets ⟨declared, grammar⟩) target)
      (origin : record.includedFrom = none) :
      Restored record documents grammars (.direct target)
  | included {grammar : Grammar} {declared root site : Document} {target : Target}
      {rootPath sitePath : Path} {offset : Nat} (known : grammars.get record.runner = .ok grammar)
      (read : documents record.declaredIn = .ok declared)
      (found : record.StandsFor (TargetFile.targets ⟨declared, grammar⟩) target)
      (origin : record.includedFrom = some ⟨rootPath, sitePath, offset⟩)
      (readRoot : documents rootPath = .ok root)
      (readSite : sitePath.normalize = rootPath.normalize ∧ site = root ∨
        sitePath.normalize ≠ rootPath.normalize ∧ documents sitePath = .ok site) :
      Restored record documents grammars (.included ⟨target, root, ⟨site, offset⟩⟩)

def restoreIn (record : RunRecord) (documents : Path → Except Fault Document)
    (grammars : Grammars) : Except Fault Occurrence :=
  (record.restore (fun path () => (documents path, ())) grammars ()).1

theorem restoreIn_eq_ok_iff :
    record.restoreIn documents grammars = .ok occurrence ↔
      record.Restored documents grammars occurrence := by
  unfold restoreIn restore
  constructor
  · intro h
    split at h
    · cases h
    · next grammar known =>
      split at h
      · cases h
      · next declared later read =>
        have read := congrArg Prod.fst read
        dsimp only at read
        split at h
        · cases h
        · next target found direct =>
          cases h
          exact .direct known read (findIn?_eq_some_iff.1 found) direct
        · next target origin found included =>
          split at h
          · cases h
          · next root later readRoot =>
            have readRoot := congrArg Prod.fst readRoot
            split at h
            · next together =>
              cases h
              exact .included known read (findIn?_eq_some_iff.1 found) included readRoot
                (.inl ⟨Path.normalize_same_iff.1 together, rfl⟩)
            · next apart =>
              split at h
              · cases h
              · next site later readSite =>
                cases h
                exact .included known read (findIn?_eq_some_iff.1 found) included readRoot
                  (.inr ⟨mt Path.normalize_same_iff.2 apart, congrArg Prod.fst readSite⟩)
  · rintro (⟨known, read, found, direct⟩ | ⟨known, read, found, included, readRoot, readSite⟩)
    · rw [known]
      dsimp only
      rw [read]
      dsimp only
      rw [findIn?_eq_some_iff.2 found, direct]
    · rw [known]
      dsimp only
      rw [read]
      dsimp only
      rw [findIn?_eq_some_iff.2 found, included]
      dsimp only
      rw [readRoot]
      dsimp only
      rcases readSite with ⟨together, rfl⟩ | ⟨apart, readSite⟩
      · rw [if_pos (Path.normalize_same_iff.2 together)]
      · rw [if_neg (mt Path.normalize_same_iff.1 apart), readSite]

/-- **Restoring succeeds where nothing is missing**: the grammar, the document with a target of that
name and, for an included target, the root and the document of the directive, which is not read
where it is the root. -/
theorem exists_restored_iff : (∃ occurrence, record.Restored documents grammars occurrence) ↔
    ∃ grammar declared, grammars.get record.runner = .ok grammar ∧
      documents record.declaredIn = .ok declared ∧
      (∃ target ∈ TargetFile.targets ⟨declared, grammar⟩, target.name = record.name) ∧
      ∀ origin ∈ record.includedFrom, (∃ root, documents origin.root = .ok root) ∧
        (origin.sitePath.normalize = origin.root.normalize ∨
          ∃ site, documents origin.sitePath = .ok site) := by
  constructor
  · rintro ⟨_, ⟨known, read, found, direct⟩ | ⟨known, read, found, included, readRoot, readSite⟩⟩
    · refine ⟨_, _, known, read, ⟨_, found.mem, found.name⟩, fun origin mem => ?_⟩
      rw [direct] at mem
      cases mem
    · refine ⟨_, _, known, read, ⟨_, found.mem, found.name⟩, fun origin mem => ?_⟩
      rw [included] at mem
      cases mem
      exact ⟨⟨_, readRoot⟩, readSite.imp And.left fun apart => ⟨_, apart.2⟩⟩
  · rintro ⟨grammar, declared, known, read, ⟨_, mem, name⟩, origins⟩
    obtain ⟨found, stands⟩ := exists_standsFor mem name
    match included : record.includedFrom with
    | none => exact ⟨_, .direct known read stands included⟩
    | some origin =>
      obtain ⟨⟨root, readRoot⟩, opens⟩ := origins origin included
      by_cases together : origin.sitePath.normalize = origin.root.normalize
      · exact ⟨_, .included known read stands included readRoot (.inl ⟨together, rfl⟩)⟩
      · obtain ⟨site, readSite⟩ := opens.resolve_left together
        exact ⟨_, .included known read stands included readRoot (.inr ⟨together, readSite⟩)⟩

namespace Restored

theorem name (h : record.Restored documents grammars occurrence) :
    occurrence.name = record.name := by
  cases h with
  | direct _ _ found => exact found.name
  | included _ _ found => exact found.name

theorem standsFor (h : record.Restored documents grammars occurrence) {grammar : Grammar}
    {declared : Document} (known : grammars.get record.runner = .ok grammar)
    (read : documents record.declaredIn = .ok declared) :
    record.StandsFor (TargetFile.targets ⟨declared, grammar⟩) occurrence.declared := by
  cases h with
  | direct known' read' found | included known' read' found =>
    cases known.symm.trans known'
    cases read.symm.trans read'
    exact found

theorem isIncluded (h : record.Restored documents grammars occurrence) :
    occurrence.isIncluded = record.includedFrom.isSome := by
  cases h with
  | direct _ _ _ origin => rw [origin]; rfl
  | included _ _ _ origin => rw [origin]; rfl

theorem path_eq (refound : Refound documents) (h : record.Restored documents grammars occurrence)
    {origin : IncludeOrigin} (included : record.includedFrom = some origin) :
    occurrence.path = origin.root.normalize := by
  cases h with
  | direct _ _ _ direct => cases included.symm.trans direct
  | included _ _ _ included' readRoot =>
    cases included.symm.trans included'
    exact refound.carried readRoot

variable {known : List Grammar}

theorem runner (h : record.Restored documents (.ofList known) occurrence) :
    occurrence.runner = record.runner := by
  cases h with
  | direct get _ found | included get _ found =>
    obtain ⟨_, -, rfl⟩ := List.mem_map.1 found.mem
    exact Grammars.runner_of_get get

/-- **The record of a restored occurrence is restored to the same occurrence.** -/
theorem again (refound : Refound documents)
    (h : record.Restored documents (.ofList known) occurrence) (command : String) :
    (ofOccurrence occurrence command).Restored documents (.ofList known) occurrence := by
  have runner := h.runner
  cases h with
  | direct get read found =>
    obtain ⟨header, -, rfl⟩ := List.mem_map.1 found.mem
    rw [← runner] at get
    exact .direct get (refound.read_path read) (found.again rfl rfl) rfl
  | included get read found _ readRoot readSite =>
    obtain ⟨header, -, rfl⟩ := List.mem_map.1 found.mem
    rw [← runner] at get
    refine .included get (refound.read_path read) (found.again rfl rfl) rfl
      (refound.read_path readRoot) ?_
    rcases readSite with ⟨-, rfl⟩ | ⟨apart, readSite⟩
    · exact .inl ⟨rfl, rfl⟩
    · -- The documents carry normal forms, so they are as far apart as the recorded paths.
      refine .inr ⟨?_, refound.read_path readSite⟩
      rwa [refound.carried readSite, refound.carried readRoot, Path.normalize_normalize,
        Path.normalize_normalize]

end Restored

end RunRecord

/-! ## One rerun after the other -/

/-- What is stored is restored to an occurrence. -/
def Store.LeadsTo {S : Type} (store : Store S) (documents : Path → Except Fault Document)
    (grammars : Grammars) (occurrence : Occurrence) (kept : S) : Prop :=
  ∃ record, store.stored kept = .ok (some record) ∧
    record.restoreIn documents grammars = .ok occurrence

namespace Step

structure Reruns (documents : Path → Except Fault Document) (grammars : Grammars) (step : Step) :
    Prop where
  operation_eq : step.operation = .rerun
  documents_eq : step.documents = documents
  grammars_eq : step.grammars = grammars

variable {S : Type} {store : Store S} {fits : RunRecord → Prop} {known : List Grammar}
  {occurrence : Occurrence} {step : Step} {session : Session S}

theorem last_of_leadsTo {grammars : Grammars} (reruns : step.Reruns documents grammars) {kept : S}
    (leads : store.LeadsTo documents grammars occurrence kept) :
    step.last store kept = .ok (some occurrence) := by
  obtain ⟨record, stored, restored⟩ := leads
  refine last_of_stored stored ?_
  rw [reruns.documents_eq, reruns.grammars_eq]
  exact restored

theorem record_of_reruns {grammars : Grammars} (reruns : step.Reruns documents grammars) {kept : S}
    (leads : store.LeadsTo documents grammars occurrence kept) {launch : Launch}
    (launched : step.launch? store kept = some launch) :
    launch.recorded = true ∧ launch.record = .ofOccurrence occurrence launch.command.text := by
  have prepared := prepare_of_launch? launched
  rw [prepare, reruns.operation_eq] at prepared
  dsimp only at prepared
  rw [last_of_leadsTo reruns leads] at prepared
  obtain ⟨rfl, recorded, -⟩ := launch_eq_ok prepared
  exact ⟨recorded, rfl⟩

/-- What is stored leads to the same occurrence after a rerun, whether it was recorded or not. -/
theorem leadsTo_perform (keeps : store.Keeps fits)
    (fit : ∀ command, fits (.ofOccurrence occurrence command)) (refound : Refound documents)
    (reruns : step.Reruns documents (.ofList known))
    (leads : store.LeadsTo documents (.ofList known) occurrence session.kept) :
    store.LeadsTo documents (.ofList known) occurrence (step.perform store session).2.kept := by
  have launched := fun launch => @record_of_reruns documents S store occurrence step (.ofList known)
    reruns session.kept leads launch
  have stored := stored_perform keeps.toSaves
    (fun launch handed _ => (launched launch handed).2 ▸ fit _) (.inr keeps)
  obtain ⟨record, before, restored⟩ := leads
  cases handed : step.launch? store session.kept with
  | none =>
    rw [handed] at stored
    exact ⟨record, stored.trans before, restored⟩
  | some launch =>
    obtain ⟨recorded, eq⟩ := launched launch handed
    refine ⟨launch.record, ?_, ?_⟩
    · rw [stored, handed, storedAfter, Option.toList_some, List.filter_cons_of_pos recorded]
      rfl
    · rw [eq, RunRecord.restoreIn_eq_ok_iff]
      exact (RunRecord.restoreIn_eq_ok_iff.1 restored).again refound _

theorem leadsTo_performAll (keeps : store.Keeps fits)
    (fit : ∀ command, fits (.ofOccurrence occurrence command)) (refound : Refound documents)
    {steps : List Step} (reruns : ∀ step ∈ steps, step.Reruns documents (.ofList known))
    (leads : store.LeadsTo documents (.ofList known) occurrence session.kept) :
    store.LeadsTo documents (.ofList known) occurrence (performAll store steps session).kept := by
  induction steps generalizing session with
  | nil => exact leads
  | cons step steps ih =>
    obtain ⟨first, later⟩ := List.forall_mem_cons.1 reruns
    exact ih later (leadsTo_perform keeps fit refound first leads)

end Step

namespace RunRecord

/-- **Reruns are stable after edits.** However old a record is, restoring it succeeds exactly if its
runner has a grammar, its documents can be read and one of the targets declared there has its name;
and it gives the target that the record stands for. From then on nothing moves: the record of that
occurrence is restored to the same occurrence, and so is what is stored after any number of
reruns. -/
theorem rerun_is_stable (known : List Grammar) (documents : Path → Except Fault Document)
    (refound : Refound documents) (record : RunRecord) :
    let grammars := Grammars.ofList known
    ((∃ occurrence, record.restoreIn documents grammars = .ok occurrence) ↔
      ∃ grammar declared, grammars.get record.runner = .ok grammar ∧
        documents record.declaredIn = .ok declared ∧
        (∃ target ∈ TargetFile.targets ⟨declared, grammar⟩, target.name = record.name) ∧
        ∀ origin ∈ record.includedFrom, (∃ root, documents origin.root = .ok root) ∧
          (origin.sitePath.normalize = origin.root.normalize ∨
            ∃ site, documents origin.sitePath = .ok site)) ∧
    ∀ occurrence, record.restoreIn documents grammars = .ok occurrence →
      occurrence.runner = record.runner ∧ occurrence.name = record.name ∧
      (∀ grammar declared, grammars.get record.runner = .ok grammar →
        documents record.declaredIn = .ok declared →
          record.StandsFor (TargetFile.targets ⟨declared, grammar⟩) occurrence.declared) ∧
      occurrence.isIncluded = record.includedFrom.isSome ∧
      (∀ origin ∈ record.includedFrom, occurrence.path = origin.root.normalize) ∧
      (∀ command, (ofOccurrence occurrence command).restoreIn documents grammars =
        .ok occurrence) ∧
      ∀ {S : Type} (store : Store S) (fits : RunRecord → Prop), store.Keeps fits →
        (∀ command, fits (ofOccurrence occurrence command)) →
        ∀ (session : Session S) (steps : List Step) (next : Step),
          store.stored session.kept = .ok (some record) →
          (∀ step ∈ next :: steps, step.Reruns documents grammars) →
          let now := Step.performAll store steps session
          next.last store now.kept = .ok (some occurrence) ∧
          ∀ command after, (next.launcher store).render occurrence .run = .ok command →
            store.save (ofOccurrence occurrence command.text) now.kept = (.ok (), after) →
            next.perform store now =
              (.rerun ((next.outcome command).map some), ⟨after, now.executed ++ [command]⟩) := by
  intro grammars
  refine ⟨?_, fun occurrence restored => ?_⟩
  · rw [← exists_restored_iff]
    exact exists_congr fun occurrence => restoreIn_eq_ok_iff
  · have found := restoreIn_eq_ok_iff.1 restored
    refine ⟨found.runner, found.name, fun grammar declared => found.standsFor, found.isIncluded,
      fun origin => found.path_eq refound, fun command => ?_, ?_⟩
    · exact restoreIn_eq_ok_iff.2 (found.again refound command)
    · intro S store fits keeps fit session steps next stored reruns now
      obtain ⟨again, before⟩ := List.forall_mem_cons.1 reruns
      have leads := Step.leadsTo_performAll keeps fit refound before ⟨record, stored, restored⟩
      have last := Step.last_of_leadsTo again leads
      exact ⟨last, fun command after => Step.rerun_of_save again.operation_eq last⟩

/-- Documents whose texts are found by the normal forms of their paths. -/
def documentsOf (texts : Path → Option String) (path : Path) : Except Fault Document :=
  match texts path.normalize with
  | some text => .ok ⟨path.normalize, text⟩
  | none => .error (.documentNotFound path .missing)

theorem refound_documentsOf (texts : Path → Option String) : Refound (documentsOf texts) where
  carried := by
    intro path document read
    unfold documentsOf at read
    split at read
    · cases read
      rfl
    · cases read
  again := by
    intro path document read
    refine ⟨document, ?_, rfl⟩
    unfold documentsOf at read ⊢
    rw [Path.normalize_normalize]
    split at read
    · exact read
    · cases read

/-- A Makefile and the file that it includes, which now has two targets of one name further down. -/
def editedTexts (path : Path) : Option String :=
  if path = ⟨"Makefile"⟩ then some "include tasks.mk\n"
  else if path = ⟨"tasks.mk"⟩ then some "clean:\nall:\nall:\n"
  else none

/-- A record from before the edit, with paths that are not in normal form. -/
def staleRecord : RunRecord where
  runner := "make"
  name := "all"
  declaredIn := ⟨"./tasks.mk"⟩
  offset := 3
  includedFrom := some ⟨⟨"Makefile"⟩, ⟨"lib/../Makefile"⟩, 0⟩
  command := "make all"

def memory : Store (Option RunRecord) := ⟨fun record _ => (.ok (), some record), .ok⟩

def rerunEdited : Step :=
  ⟨.standard, documentsOf editedTexts, .ofList [.make], fun _ => .ok ⟨none⟩, .rerun⟩

/-- The first target of the recorded name is found, and again after two reruns. -/
theorem stale_record_settles : ∃ occurrence,
    staleRecord.restoreIn (documentsOf editedTexts) (.ofList [.make]) = .ok occurrence ∧
      occurrence.declared.offset = 7 ∧ occurrence.path = ⟨"Makefile"⟩ ∧
      rerunEdited.last memory
        (Step.performAll memory [rerunEdited, rerunEdited] ⟨some staleRecord, []⟩).kept =
          .ok (some occurrence) := by
  obtain ⟨-, stable⟩ := rerun_is_stable [.make] _ (refound_documentsOf editedTexts) staleRecord
  obtain ⟨occurrence, restored, offset⟩ : ∃ occurrence,
      staleRecord.restoreIn (documentsOf editedTexts) (.ofList [.make]) = .ok occurrence ∧
        occurrence.declared.offset = 7 := by
    have found : (staleRecord.restoreIn (documentsOf editedTexts) (.ofList [.make])).toOption.map
        (fun occurrence => occurrence.declared.offset) = some 7 := by decide +kernel
    obtain ⟨occurrence, restored, offset⟩ := Option.map_eq_some_iff.1 found
    exact ⟨occurrence, eq_ok_of_toOption restored, offset⟩
  obtain ⟨-, -, -, -, path, -, reruns⟩ := stable occurrence restored
  have keeps : memory.Keeps fun _ => True := by
    refine ⟨⟨fun record kept after _ save => ?_⟩, fun record kept cause after save => ?_⟩
    · cases save
      rfl
    · cases save
  have steps : ∀ step ∈ [rerunEdited, rerunEdited, rerunEdited],
      step.Reruns (documentsOf editedTexts) (.ofList [.make]) := by
    intro step mem
    obtain rfl : step = rerunEdited := by simpa using mem
    exact ⟨rfl, rfl, rfl⟩
  obtain ⟨last, -⟩ := reruns memory _ keeps (fun _ => trivial) ⟨some staleRecord, []⟩
    [rerunEdited, rerunEdited] rerunEdited rfl steps
  exact ⟨occurrence, restored, offset, (path _ rfl).trans (by decide +kernel), last⟩

end RunRecord

end BuildTargets
