import BuildTargets.Proofs.FileSystem.Extent
import BuildTargets.Proofs.FileSystem.Search
import BuildTargets.Proofs.Walk.Reach

/-!
# Walks through a file tree

A walk tells files apart by the normal forms of their paths. Two spellings of one file have the same
normal form when they have the same anchor, so of the paths with one anchor at most one is loaded
for a file. Where all paths have the anchor of the root's, no file is loaded twice, and what a file
declares is listed once, whatever its path is spelled like in the directives. So it is for a root
file with an absolute path; from one with a relative path, directives can lead to the same file by
other anchors, and then it is entered again.
-/

namespace BuildTargets

/-! ## Documents that are reached -/

def FileSystem.answers (files : FileSystem) : Answers := ⟨files.findFiles, files.openDocument⟩

/-- The document of a root file, and those that directives in documents reached lead to, whether
or not they have been read before. -/
inductive FileSystem.Reached (files : FileSystem) (excludes : List String) (root : TargetFile) :
    Document → Prop where
  | root : Reached files excludes root root.document
  | through {via document : Document} {path : Path} (reached : Reached files excludes root via)
      (leads : files.answers.LeadsTo excludes ⟨via, root.grammar⟩
        (TargetFile.edges ⟨via, root.grammar⟩) path)
      (opened : files.openDocument path = .ok document) : Reached files excludes root document

section

variable {σ : Type} {walker : Walker σ} {files : FileSystem} {note : Remark → σ → σ}
  {root : TargetFile} {path : Path} {known : List Path}

theorem steady_ofFiles (source : walker.source = .ofFiles (fun _ => files) note) :
    ∃ known, walker.source.Steady files.answers known := by
  obtain ⟨known, normal, mem⟩ := FileSystem.exists_known
  refine ⟨known, ?_⟩
  rw [source]
  exact {
    find_eq := fun _ _ _ _ => rfl
    load_eq := fun _ _ => rfl
    mem_known := by
      intro base patterns excludes paths find path held
      obtain ⟨-, -, -, -, -, isFile⟩ := FileSystem.mem_findFiles find held
      exact mem files path (FileSystem.normalize_of_mem_findFiles find held)
        (FileSystem.contains_of_isFile isFile)
    normal
    path_eq := by
      intro path held document load
      rw [(FileSystem.openDocument_eq_ok load).1, normal path held] }

theorem reached_of_reaches
    (h : files.answers.Reaches walker.excludes root root.edges [] path) {document : Document}
    (opened : files.openDocument path = .ok document) :
    files.Reached walker.excludes root document := by
  induction h generalizing document with
  | first leads => exact .through .root leads opened
  | next _ enters leads ih => exact .through (ih enters.load) leads opened

/-- **The documents of a recursive walk are those that are reached.** -/
theorem reached_iff (steady : walker.source.Steady files.answers known)
    (opened : files.openDocument path = .ok root.document) {state final : σ}
    {included : List IncludedFile}
    (ends : Walk.Ends walker (Walk.start root root.edges true []) state included final)
    (document : Document) :
    files.Reached walker.excludes root document ↔
      document ∈ root.document :: included.map fun file => file.file.document := by
  have arrives := ends.arrives steady Walk.pendingOnly_start Walk.traces_start
  constructor
  · intro reached
    induction reached with
    | root => exact List.mem_cons_self
    | @through via document place _ leads load ih =>
      by_cases again : place.same root.path.normalize = true
      · -- The root is read again.
        have normal : place.normalize = path.normalize := by
          rw [Path.normalize_congr again, TargetFile.path,
            (FileSystem.openDocument_eq_ok opened).1]
          simp
        rw [FileSystem.document_eq_of_normalize normal load opened]
        exact List.mem_cons_self
      · have enters : files.answers.Enters root [] place document :=
          ⟨Bool.eq_false_iff.2 again, List.forall_mem_nil _, load⟩
        have reaches : files.answers.Reaches walker.excludes root root.edges [] place := by
          rcases List.mem_cons.1 ih with rfl | inside
          · exact .first leads
          · obtain ⟨file, given, rfl⟩ := List.mem_map.1 inside
            have arrived := arrives file given
            exact .next arrived.reaches arrived.enters leads
        obtain ⟨file, given, rfl⟩ := ends.gives_reached steady reaches enters
        have same : file.file.document = document :=
          Except.ok.inj ((arrives file given).enters.load.symm.trans load)
        exact List.mem_cons_of_mem _ (List.mem_map.2 ⟨file, given, same⟩)
  · intro mem
    rcases List.mem_cons.1 mem with rfl | inside
    · exact .root
    · obtain ⟨file, given, rfl⟩ := List.mem_map.1 inside
      have arrived := arrives file given
      exact reached_of_reaches arrived.reaches arrived.enters.load

/-! ## Absolute paths -/

theorem Answers.LeadsTo.isAbsolute {excludes : List String} {file : TargetFile}
    {edges : List IncludeEdge} (h : files.answers.LeadsTo excludes file edges path)
    (absolute : file.directory.isAbsolute = true) : path.isAbsolute = true := by
  obtain ⟨edge, -, paths, find, mem⟩ := h
  exact FileSystem.isAbsolute_of_mem_findFiles absolute find mem

theorem Answers.Reaches.isAbsolute {excludes : List String} {edges : List IncludeEdge}
    {visited : List Path} (h : files.answers.Reaches excludes root edges visited path)
    (absolute : root.directory.isAbsolute = true) : path.isAbsolute = true := by
  induction h with
  | first leads => exact leads.isAbsolute absolute
  | next _ enters leads ih =>
    exact leads.isAbsolute (FileSystem.isAbsolute_directory ih enters.load)

/-- The paths that directives lead to from a root file all have one anchor. -/
def FileSystem.Anchored (files : FileSystem) (excludes : List String) (root : TargetFile)
    (edges : List IncludeEdge) (visited : List Path) (anchor : Path.Anchor) : Prop :=
  ∀ path, files.answers.Reaches excludes root edges visited path → path.anchor = anchor

theorem anchored_of_isAbsolute (opened : files.openDocument path = .ok root.document)
    (absolute : path.isAbsolute = true) (excludes : List String) (edges : List IncludeEdge)
    (visited : List Path) : files.Anchored excludes root edges visited path.anchor := by
  intro other reaches
  have below := reaches.isAbsolute (FileSystem.isAbsolute_directory absolute opened)
  rw [Path.anchor_eq_root_iff.2 absolute, Path.anchor_eq_root_iff.2 below]

/-! ## Paths that are loaded -/

/-- The paths that are loaded when so many files are pulled out of a walk. -/
def Walker.loaded (walker : Walker σ) (root : TargetFile) (edges : List IncludeEdge)
    (recursive : Bool) (visited : List Path) (demand : Nat) (state : σ) : List Path :=
  loads (Walk.gather walker.recorded (fun included => [included]) demand none
    (Walk.start root edges recursive visited) (state, [])).2.2

/-- The paths that are loaded have different normal forms, none of them that of the root. -/
theorem Walker.normalize_loaded (walker : Walker σ) (carried : root.path.normalize = path.normalize)
    (edges : List IncludeEdge) (recursive : Bool) (visited : List Path) (demand : Nat) (state : σ) :
    ((walker.loaded root edges recursive visited demand state).Pairwise fun a b =>
      a.normalize ≠ b.normalize) ∧
    ∀ a ∈ walker.loaded root edges recursive visited demand state,
      a.normalize ≠ path.normalize := by
  have start : Walk.LoadsOnce (root.path.normalize :: visited)
      (Walk.start root edges recursive visited).visited ((state, []) : σ × List Question).2 :=
    ⟨rfl, .nil, List.forall_mem_nil _⟩
  obtain ⟨after, once⟩ := (Walk.loadsOnce_invariant walker _).gather
    (fun included => [included]) demand start
  have differ : ∀ {a b : Path}, a.normalize.same b.normalize = false → a.normalize ≠ b.normalize :=
    fun apart eq => Bool.eq_false_iff.1 apart (Path.normalize_same_iff.2 eq)
  rw [← carried]
  exact ⟨once.distinct.imp differ, fun a mem => differ (once.fresh a mem _ List.mem_cons_self)⟩

/-- A walk whose questions are written down has only reached paths on offer and has loaded no
others. -/
structure Walk.Asks (answers : Answers) (excludes : List String) (known : List Path)
    (root : TargetFile) (edges : List IncludeEdge) (visited : List Path) (walk : Walk)
    (asked : List Question) : Prop where
  only : walk.PendingOnly (· ∈ known)
  traces : walk.Traces answers excludes root edges visited
  reaches : ∀ path ∈ loads asked, answers.Reaches excludes root edges visited path

theorem Source.Steady.recorded {answers : Answers}
    (steady : walker.source.Steady answers known) :
    walker.recorded.source.Steady answers known where
  find_eq base patterns excludes state := steady.find_eq base patterns excludes state.1
  load_eq path state := steady.load_eq path state.1
  mem_known := steady.mem_known
  normal := steady.normal
  path_eq := steady.path_eq

section

variable {answers : Answers} {edges : List IncludeEdge} {visited : List Path}
  {state later : σ × List Question}

theorem loads_of_find {base : Path} {patterns excludes : List String}
    {answer : Except Fault (List Path)}
    (h : walker.recorded.source.find base patterns excludes state = (answer, later)) :
    loads later.2 = loads state.2 := by
  cases h
  exact loads_append_find state.2 base patterns excludes

theorem loads_of_load {answer : Except Fault Document}
    (h : walker.recorded.source.load path state = (answer, later)) :
    loads later.2 = loads state.2 ++ [path] := by
  cases h
  exact loads_append_load state.2 path

/-- The path that is loaded next is on offer. -/
theorem Walk.Asks.load {recursive : Bool} {entered : List Path} {file : TargetFile} {depth : Nat}
    {left : List IncludeEdge} {pending : List Path} {offset : Nat} {below : List Frame}
    (asks : Walk.Asks answers walker.excludes known root edges visited
      ⟨recursive, entered, ⟨file, depth, left, path :: pending, offset⟩ :: below⟩ state.2)
    {answer : Except Fault Document}
    (h : walker.recorded.source.load path state = (answer, later)) :
    ∀ other ∈ loads later.2, answers.Reaches walker.excludes root edges visited other := by
  have first := asks.traces.reaches path (offers_cons.2 (.inl List.mem_cons_self))
  rw [loads_of_load h]
  exact List.forall_mem_append.2 ⟨asks.reaches, List.forall_mem_singleton.2 first⟩

theorem Walk.asks_invariant (steady : walker.source.Steady answers known) :
    Invariant walker.recorded fun walk (state : σ × List Question) =>
      walk.Asks answers walker.excludes known root edges visited state.2 where
  again := by
    intro walk after state later h asks
    refine ⟨(known_invariant steady.recorded).again h asks.only,
      asks.traces.again steady.recorded h, ?_⟩
    cases h with
    | visited | done => exact asks.reaches
    | notLoaded _ load =>
      have reaches := asks.load load
      exact reaches
    | searched find | notSearched find =>
      have reaches := asks.reaches
      rw [← loads_of_find find] at reaches
      exact reaches
  found := by
    intro walk after state later included h asks
    refine ⟨(known_invariant steady.recorded).found h asks.only,
      asks.traces.found steady.recorded h asks.only, ?_⟩
    cases h with
    | loaded _ load => exact asks.load load

end

theorem Walker.reaches_loaded {answers : Answers} (steady : walker.source.Steady answers known)
    (edges : List IncludeEdge) (recursive : Bool) (visited : List Path) (demand : Nat)
    (state : σ) : ∀ path ∈ walker.loaded root edges recursive visited demand state,
      answers.Reaches walker.excludes root edges visited path := by
  have start : (Walk.start root edges recursive visited).Asks answers walker.excludes known root
      edges visited ((state, []) : σ × List Question).2 :=
    ⟨Walk.pendingOnly_start, Walk.traces_start, List.forall_mem_nil _⟩
  obtain ⟨after, asks⟩ := (Walk.asks_invariant steady).gather
    (fun included => [included]) demand start
  exact asks.reaches

/-! ## Places that are entered -/

/-- Where all paths have the anchor of the root's path, the documents of a recursive walk lie at
different places. -/
theorem places_differ (steady : walker.source.Steady files.answers known)
    (opened : files.openDocument path = .ok root.document)
    (anchored : files.Anchored walker.excludes root root.edges [] path.anchor)
    {state final : σ} {included : List IncludedFile}
    (ends : Walk.Ends walker (Walk.start root root.edges true []) state included final) :
    (root.document :: included.map fun file => file.file.document).Pairwise fun a b =>
      files.place? a.path ≠ files.place? b.path := by
  have arrives := ends.arrives steady Walk.pendingOnly_start Walk.traces_start
  have inner : ∀ file ∈ included, file.file.path.anchor = path.anchor ∧
      file.file.path.normalize = file.file.path ∧
        ∃ place, files.place? file.file.path = some place := by
    intro file given
    have arrived := arrives file given
    have mem := arrived.reaches.mem_known steady
    obtain ⟨place, content, found⟩ := FileSystem.lookup_of_openDocument arrived.enters.load
    exact ⟨anchored _ arrived.reaches, steady.normal _ mem, place,
      FileSystem.place?_eq_some.2 ⟨_, found⟩⟩
  have carried : root.path.anchor = path.anchor := by
    rw [TargetFile.path, (FileSystem.openDocument_eq_ok opened).1, Path.anchor_normalize]
  refine List.pairwise_cons.2 ⟨?_, List.pairwise_map.2 ?_⟩
  · intro document mem
    obtain ⟨file, given, rfl⟩ := List.mem_map.1 mem
    obtain ⟨first, normal, place, leads⟩ := inner file given
    intro same
    have meet : files.Meet file.file.path root.path := ⟨place, leads, same.trans leads⟩
    have known := Path.normalize_same_iff.2 (meet.normalize_eq (first.trans carried.symm))
    rw [normal, (arrives file given).enters.not_root] at known
    cases known
  · refine (ends.distinct steady Walk.pendingOnly_start).2.imp_of_mem ?_
    intro file other given given' apart same
    obtain ⟨first, normal, place, leads⟩ := inner file given
    obtain ⟨second, normal', -⟩ := inner other given'
    have meet : files.Meet file.file.path other.file.path := ⟨place, leads, same.symm.trans leads⟩
    have known := Path.normalize_same_iff.2 (meet.normalize_eq (first.trans second.symm))
    rw [normal, normal', apart] at known
    cases known

/-- No more files are entered than there are regular files. -/
theorem length_le_filePlaces (steady : walker.source.Steady files.answers known)
    (opened : files.openDocument path = .ok root.document)
    (anchored : files.Anchored walker.excludes root root.edges [] path.anchor)
    {state final : σ} {included : List IncludedFile}
    (ends : Walk.Ends walker (Walk.start root root.edges true []) state included final) :
    included.length ≤ files.filePlaces.length := by
  have arrives := ends.arrives steady Walk.pendingOnly_start Walk.traces_start
  have distinct : (included.map fun file => files.place? file.file.path).Nodup := by
    have apart :=
      List.pairwise_map.1 (List.pairwise_cons.1 (places_differ steady opened anchored ends)).2
    exact List.pairwise_map.2 apart
  have inside : (included.map fun file => files.place? file.file.path) ⊆
      files.filePlaces.map some := by
    intro place? mem
    obtain ⟨file, given, rfl⟩ := List.mem_map.1 mem
    obtain ⟨place, content, found⟩ :=
      FileSystem.lookup_of_openDocument (arrives file given).enters.load
    rw [FileSystem.place?_eq_some.2 ⟨_, found⟩]
    exact List.mem_map.2 ⟨place, FileSystem.mem_filePlaces found, rfl⟩
  simpa using (distinct.subperm inside).length_le

/-! ## What is listed -/

/-- The declarations listed are those of the root and then those of the files of the walk. -/
theorem declared_allTargets {state final : σ} {included : List IncludedFile}
    (ends : Walk.Ends walker (Walk.start root root.edges true []) state included final)
    (grammar : ∀ file ∈ included, file.file.grammar = root.grammar)
    (le : included.length ≤ walker.limit) :
    (walker.allTargets root state).1.map Occurrence.declared =
      (root.document :: included.map fun file => file.file.document).flatMap fun document =>
        TargetFile.targets ⟨document, root.grammar⟩ := by
  have direct : (root.targets.map Occurrence.direct).map Occurrence.declared = root.targets := by
    rw [List.map_map]
    exact List.map_id _
  have inner : ∀ file ∈ included,
      ((file.targets root.document).map Occurrence.included).map Occurrence.declared =
        TargetFile.targets ⟨file.file.document, root.grammar⟩ := by
    intro file given
    rw [IncludedFile.targets, List.map_map, List.map_map, ← grammar file given]
    exact List.map_id _
  rw [Walker.allTargets_eq ends le, List.map_append, direct, List.map_flatMap, List.flatMap_cons,
    List.flatMap_map]
  exact congrArg _ (List.flatMap_congr inner)

/-- From lists whose members have the key of their list, different keys for different lists, one
list is picked by its key. -/
theorem filter_flatMap_key {α β κ : Type} [DecidableEq κ] (items : α → List β) (key : α → κ)
    (keyOf : β → κ) (same : ∀ a, ∀ item ∈ items a, keyOf item = key a) {as : List α}
    (distinct : as.Pairwise fun a b => key a ≠ key b) {a : α} (mem : a ∈ as) :
    (as.flatMap items).filter (fun item => keyOf item = key a) = items a := by
  induction distinct with
  | nil => cases mem
  | @cons first rest apart _ ih =>
    rw [List.flatMap_cons, List.filter_append]
    rcases List.mem_cons.1 mem with rfl | behind
    · have all : (items a).filter (fun item => keyOf item = key a) = items a :=
        List.filter_eq_self.2 fun item held => decide_eq_true (same a item held)
      have none : (rest.flatMap items).filter (fun item => keyOf item = key a) = [] := by
        refine List.filter_eq_nil_iff.2 fun item held => ?_
        obtain ⟨b, behind, held⟩ := List.mem_flatMap.1 held
        rw [decide_eq_true_eq, same b item held]
        exact (apart b behind).symm
      rw [all, none, List.append_nil]
    · have none : (items first).filter (fun item => keyOf item = key a) = [] := by
        refine List.filter_eq_nil_iff.2 fun item held => ?_
        rw [decide_eq_true_eq, same first item held]
        exact apart a behind
      rw [none, ih behind, List.nil_append]

/-- **No file is loaded under two paths with one anchor.** In a tree of files, of the paths that a
walk loads no two with the same anchor lead to one place, and none with the anchor of the root's
path leads to the root. If the root's path is absolute, so are all paths that directives lead to.
Where these all have the anchor of the root's path, no place is loaded twice and the root is not
loaded again; and a walker that may enter as many files as the tree has lists, for each document
that is reached under whatever path, what it declares once each, and nothing else. -/
theorem loaded_once_per_anchor (walker : Walker σ) (files : FileSystem) (note : Remark → σ → σ)
    (source : walker.source = .ofFiles (fun _ => files) note) (root : TargetFile) (path : Path)
    (opened : files.openDocument path = .ok root.document) (state : σ) :
    (∀ edges recursive visited demand,
      ((walker.loaded root edges recursive visited demand state).Pairwise fun a b =>
        files.Meet a b → a.anchor ≠ b.anchor) ∧
      ∀ a ∈ walker.loaded root edges recursive visited demand state,
        files.Meet a path → a.anchor ≠ path.anchor) ∧
    (path.isAbsolute = true → ∀ edges visited,
      files.Anchored walker.excludes root edges visited path.anchor) ∧
    (∀ edges visited, files.Anchored walker.excludes root edges visited path.anchor →
      ∀ recursive demand,
        ((walker.loaded root edges recursive visited demand state).Pairwise fun a b =>
          ¬ files.Meet a b) ∧
        ∀ a ∈ walker.loaded root edges recursive visited demand state, ¬ files.Meet a path) ∧
    (files.Anchored walker.excludes root root.edges [] path.anchor →
      files.filePlaces.length ≤ walker.limit →
        let declared := (walker.allTargets root state).1.map Occurrence.declared
        (∀ target ∈ declared, ∃ document, files.Reached walker.excludes root document ∧
          target ∈ TargetFile.targets ⟨document, root.grammar⟩) ∧
        ∀ document, files.Reached walker.excludes root document →
          declared.filter (fun target => files.place? target.path = files.place? document.path) =
            TargetFile.targets ⟨document, root.grammar⟩) := by
  obtain ⟨known, steady⟩ := steady_ofFiles source
  have carried : root.path.normalize = path.normalize := by
    rw [TargetFile.path, (FileSystem.openDocument_eq_ok opened).1, Path.normalize_normalize]
  refine ⟨fun edges recursive visited demand => ?_,
    fun absolute => anchored_of_isAbsolute opened absolute walker.excludes,
    fun edges visited anchored recursive demand => ?_, fun anchored enough => ?_⟩
  · obtain ⟨distinct, fresh⟩ :=
      walker.normalize_loaded carried edges recursive visited demand state
    exact ⟨distinct.imp fun differ meet same => differ (meet.normalize_eq same),
      fun a mem meet same => fresh a mem (meet.normalize_eq same)⟩
  · obtain ⟨distinct, fresh⟩ :=
      walker.normalize_loaded carried edges recursive visited demand state
    have anchor := fun a mem =>
      anchored a (Walker.reaches_loaded steady edges recursive visited demand state a mem)
    exact ⟨distinct.imp_of_mem fun first second differ meet =>
        differ (meet.normalize_eq ((anchor _ first).trans (anchor _ second).symm)),
      fun a mem meet => fresh a mem (meet.normalize_eq (anchor a mem))⟩
  · obtain ⟨included, final, ends, -⟩ := steady.exists_ends root root.edges state
    have arrives := ends.arrives steady Walk.pendingOnly_start Walk.traces_start
    have listed := declared_allTargets ends (fun file given => (arrives file given).grammar)
      (Nat.le_trans (length_le_filePlaces steady opened anchored ends) enough)
    have reached := reached_iff steady opened ends
    refine ⟨fun target mem => ?_, fun document held => ?_⟩
    · rw [listed] at mem
      obtain ⟨document, inside, mem⟩ := List.mem_flatMap.1 mem
      exact ⟨document, (reached document).2 inside, mem⟩
    · rw [listed]
      refine filter_flatMap_key (fun document => TargetFile.targets ⟨document, root.grammar⟩)
        (fun document => files.place? document.path) (fun target => files.place? target.path) ?_
        (places_differ steady opened anchored ends) ((reached document).1 held)
      intro document target mem
      obtain ⟨header, -, rfl⟩ := List.mem_map.1 mem
      rfl

end

/-- A working directory with a makefile of some text and a file beside it. -/
def climbing (text : String) : FileSystem where
  root := .directory
    [("w", .directory [("Makefile", .file text.toUTF8), ("b.mk", .file "b:\n".toUTF8)])]
  workingDirectory := ["w"]

/-- Directives that lead to the file itself, and to another one by two spellings. -/
def climbingText : String := "include ../w/Makefile\ninclude ../w/b.mk\ninclude b.mk\nall:\n"

theorem absolute_root_lists_once :
    let files := climbing climbingText
    let root : TargetFile := ⟨⟨⟨"/w/Makefile"⟩, climbingText⟩, .make⟩
    let walker : Walker Unit := ⟨.ofFiles (fun _ => files) fun _ state => state, [], 2⟩
    files.openDocument root.path = .ok root.document ∧ root.path.isAbsolute = true ∧
      files.filePlaces.length ≤ walker.limit ∧
      files.Reached [] root ⟨⟨"/w/b.mk"⟩, "b:\n"⟩ ∧
      ((walker.allTargets root ()).1.map Occurrence.declared).filter (fun target =>
        files.place? target.path = some ["w", "b.mk"]) =
          [⟨⟨⟨"/w/b.mk"⟩, "b:\n"⟩, .make, ⟨"b", "", 0, 0⟩⟩] := by
  intro files root walker
  have opened : files.openDocument root.path = .ok root.document := by decide +kernel
  have enough : files.filePlaces.length ≤ walker.limit := by decide +kernel
  have reached : files.Reached [] root ⟨⟨"/w/b.mk"⟩, "b:\n"⟩ :=
    .through .root ⟨⟨22, "../w/b.mk"⟩, by decide +kernel, [⟨"/w/b.mk"⟩], by decide +kernel,
      List.mem_cons_self⟩ (by decide +kernel)
  obtain ⟨-, anchored, -, listed⟩ := loaded_once_per_anchor walker files _ rfl root _ opened ()
  have listed := (listed (anchored (by decide) _ _) enough).2 _ reached
  rw [show files.place? ⟨"/w/b.mk"⟩ = some ["w", "b.mk"] by decide +kernel] at listed
  refine ⟨opened, by decide, enough, reached, listed.trans ?_⟩
  decide +kernel

/-- From a relative path, a directive that climbs out of the working directory and back leads to the
root file again, and what it declares is listed twice. -/
theorem relative_root_listed_twice :
    let text := "include ../w/Makefile\nall:\n"
    let files := climbing text
    let root : TargetFile := ⟨⟨⟨"Makefile"⟩, text⟩, .make⟩
    let walker : Walker Unit := ⟨.ofFiles (fun _ => files) fun _ state => state, [], 2⟩
    files.openDocument root.path = .ok root.document ∧
      files.Meet ⟨"../w/Makefile"⟩ root.path ∧
      (walker.includedFiles root true [] none ()).1.map (fun included => included.file.path) =
        [⟨"../w/Makefile"⟩] ∧
      (walker.allTargets root ()).1.map (fun occurrence =>
        (occurrence.declared.path, occurrence.name)) =
          [(⟨"Makefile"⟩, "all"), (⟨"../w/Makefile"⟩, "all")] := by
  intro text files root walker
  have walked : Walk.filesWithin? walker 8 (Walk.start root root.edges true []) () =
      some [⟨⟨⟨⟨"../w/Makefile"⟩, text⟩, .make⟩, ⟨root.document, 0⟩, 1⟩] := by
    decide +kernel
  obtain ⟨final, ends⟩ := Walk.ends_of_filesWithin? walked
  refine ⟨by decide +kernel, ⟨["w", "Makefile"], by decide +kernel, by decide +kernel⟩, ?_, ?_⟩
  · rw [Walker.includedFiles, ends.pulled_eq]
    rfl
  · rw [Walker.allTargets_eq ends (by decide)]
    decide +kernel

end BuildTargets
