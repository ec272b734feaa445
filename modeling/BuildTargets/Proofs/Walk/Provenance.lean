import BuildTargets.Proofs.Walk.Log
import BuildTargets.Proofs.Walk.Reach

/-!
# Directives that the files of a walk stand below

Every file of a walk was loaded at a path that a search found, and the search was made for a
directive of the file's site. The site lies in the root, or in the nearest file before that is less
deep: only deeper files are given between a file and the last of those it includes. So the sites
lead from a file up to the root, one step for each unit of its depth.

The search, the directive and the paths it found outlive the files that are entered in between. What
a frame has to keep for that, `Frame.Traced`, is untouched by anything that happens above it.
-/

namespace BuildTargets

/-! ## Sites in the files given before -/

/-- An element of a list with one more at its end is that one or stands before it. -/
theorem snoc_split {α : Type} {init earlier later : List α} {last item : α}
    (h : init ++ [last] = earlier ++ item :: later) :
    earlier = init ∧ item = last ∧ later = [] ∨
      ∃ between, later = between ++ [last] ∧ init = earlier ++ item :: between := by
  rcases List.eq_nil_or_concat later with rfl | ⟨between, final, rfl⟩
  · obtain ⟨rfl, same⟩ := List.append_inj' h rfl
    exact .inl ⟨rfl, (List.cons.inj same).1.symm, rfl⟩
  · rw [List.concat_eq_append, ← List.cons_append, ← List.append_assoc] at h
    obtain ⟨rfl, same⟩ := List.append_inj' h rfl
    rw [List.concat_eq_append, same]
    exact .inr ⟨between, rfl, rfl⟩

/-- The site of a file lies in the root if its depth is 1, and otherwise in the last file given
before with the depth above; no file between the two is less deep than the file itself. -/
structure Nested (root : Document) (earlier : List IncludedFile) (included : IncludedFile) :
    Prop where
  depth_pos : 1 ≤ included.depth
  top : included.depth = 1 → included.site.document = root
  below : included.depth ≠ 1 → ∃ before includer between,
    earlier = before ++ includer :: between ∧ includer.depth = included.depth - 1 ∧
      included.site.document = includer.file.document ∧
      ∀ other ∈ between, included.depth ≤ other.depth

/-- Every file is nested in those before it. -/
def AllNested (root : Document) (files : List IncludedFile) : Prop :=
  ∀ earlier included later, files = earlier ++ included :: later → Nested root earlier included

/-- The sites lead from a file to the root in so many steps: the site lies in the nearest of the
files before that are less deep, from which they lead on, or else in the root. -/
inductive Climbs (root : Document) : List IncludedFile → IncludedFile → Nat → Prop where
  | root {earlier : List IncludedFile} {included : IncludedFile}
      (site : included.site.document = root)
      (least : ∀ other ∈ earlier, included.depth ≤ other.depth) : Climbs root earlier included 1
  | file {earlier before between : List IncludedFile} {includer included : IncludedFile}
      {steps : Nat} (split : earlier = before ++ includer :: between)
      (site : included.site.document = includer.file.document)
      (less : includer.depth < included.depth)
      (nearest : ∀ other ∈ between, included.depth ≤ other.depth)
      (rest : Climbs root before includer steps) : Climbs root earlier included (steps + 1)

/-- Only one file is the nearest that is less deep. -/
theorem nearest_unique {depth : Nat} {before before' between between' : List IncludedFile}
    {includer includer' : IncludedFile}
    (split : before ++ includer :: between = before' ++ includer' :: between')
    (less : includer.depth < depth) (nearest : ∀ other ∈ between, depth ≤ other.depth)
    (less' : includer'.depth < depth) (nearest' : ∀ other ∈ between', depth ≤ other.depth) :
    before = before' ∧ includer = includer' := by
  rcases List.append_eq_append_iff.1 split with ⟨more, rfl, rest⟩ | ⟨more, rfl, rest⟩
  · cases more with
    | nil => exact ⟨(List.append_nil _).symm, (List.cons.inj rest).1⟩
    | cons other more =>
      have among : includer' ∈ between := (List.cons.inj rest).2 ▸ List.mem_append_cons_self
      exact absurd (nearest includer' among) (Nat.not_le_of_lt less')
  · cases more with
    | nil => exact ⟨List.append_nil _, (List.cons.inj rest).1.symm⟩
    | cons other more =>
      have among : includer ∈ between' := (List.cons.inj rest).2 ▸ List.mem_append_cons_self
      exact absurd (nearest' includer among) (Nat.not_le_of_lt less)

theorem Climbs.unique {root : Document} {earlier : List IncludedFile} {included : IncludedFile}
    {steps steps' : Nat} (h : Climbs root earlier included steps)
    (h' : Climbs root earlier included steps') : steps = steps' := by
  induction h generalizing steps' with
  | root _ least =>
    cases h' with
    | root => rfl
    | file split _ less =>
      exact absurd (least _ (split ▸ List.mem_append_cons_self)) (Nat.not_le_of_lt less)
  | file split _ less nearest _ ih =>
    cases h' with
    | root _ least =>
      exact absurd (least _ (split ▸ List.mem_append_cons_self)) (Nat.not_le_of_lt less)
    | file split' _ less' nearest' rest' =>
      obtain ⟨rfl, rfl⟩ := nearest_unique (split.symm.trans split') less nearest less' nearest'
      rw [ih rest']

namespace AllNested

variable {root : Document} {files : List IncludedFile}

theorem depth_pos (nested : AllNested root files) {included : IncludedFile}
    (mem : included ∈ files) : 1 ≤ included.depth := by
  obtain ⟨earlier, later, split⟩ := List.append_of_mem mem
  exact (nested earlier included later split).depth_pos

theorem climbs (nested : AllNested root files) {earlier later : List IncludedFile}
    {included : IncludedFile} (split : files = earlier ++ included :: later) :
    Climbs root earlier included included.depth := by
  -- The includer has fewer files before it.
  induction h : earlier.length using Nat.strongRecOn generalizing earlier included later with
  | _ length ih =>
    have here := nested earlier included later split
    by_cases top : included.depth = 1
    · rw [top]
      refine .root (here.top top) fun other mem => ?_
      rw [top]
      exact nested.depth_pos (split ▸ List.mem_append_left _ mem)
    · obtain ⟨before, includer, between, split', depth, site, nearest⟩ := here.below top
      have pos := here.depth_pos
      have above : files = before ++ includer :: (between ++ included :: later) := by
        rw [split, split', List.append_assoc, List.cons_append]
      have fewer : before.length < length := by simp [← h, split']
      have climbs := Climbs.file split' site (by omega) nearest (ih before.length fewer above rfl)
      rwa [show includer.depth + 1 = included.depth by omega] at climbs

/-- From one file to the next, the depth rises by at most 1. -/
theorem depth_le (nested : AllNested root files) {earlier later : List IncludedFile}
    {included next : IncludedFile} (split : files = earlier ++ included :: next :: later) :
    next.depth ≤ included.depth + 1 := by
  have here := nested (earlier ++ [included]) next later (by rw [split, List.append_assoc]; rfl)
  by_cases top : next.depth = 1
  · omega
  · obtain ⟨before, includer, between, split, depth, -, nearest⟩ := here.below top
    -- The file before is the includer itself, or it lies between the two.
    rcases snoc_split split with ⟨-, rfl, -⟩ | ⟨others, rfl, -⟩
    · omega
    · have := nearest included (List.mem_append_right _ (List.mem_singleton_self _))
      omega

end AllNested

/-! ## Searches in the log -/

/-- The paths were found by a search for the directive at `site`, in the directory of its document.
It was made when the files `first` had been given; those since are at least as deep as `depth`. -/
inductive Searched (excludes : List String) (grammar : Grammar) (site : IncludeSite) (depth : Nat)
    (files : List IncludedFile) (log : List Reply) (paths : List Path) : Prop where
  | intro {edge : IncludeEdge} {first since : List IncludedFile} {before after : List Reply}
      (edge_mem : edge ∈ TargetFile.edges ⟨site.document, grammar⟩)
      (edge_offset : edge.offset = site.offset)
      (files_eq : files = first ++ since)
      (log_eq : log = before ++
        .found site.document.path.directory [edge.argument] excludes (.ok paths) :: after)
      (given : documents before = documentsOf first)
      (deep : ∀ file ∈ since, depth ≤ file.depth)

/-- Where a file comes from that is given after the files `earlier` and loaded at `path` where the
log has come to `past`. -/
structure Provenance (excludes : List String) (root : TargetFile) (earlier : List IncludedFile)
    (past : List Reply) (path : Path) (included : IncludedFile) : Prop where
  grammar : included.file.grammar = root.grammar
  given : documents past = documentsOf earlier
  searched : ∃ paths, path ∈ paths ∧
    Searched excludes root.grammar included.site included.depth earlier past paths
  nested : Nested root.document earlier included

/-- Every file comes from somewhere: it is loaded as the log says, after the files before it. -/
def Explained (excludes : List String) (root : TargetFile) (files : List IncludedFile)
    (log : List Reply) : Prop :=
  ∀ earlier included later, files = earlier ++ included :: later → ∃ past path rest,
    log = past ++ .loaded path (.ok included.file.document) :: rest ∧
      Provenance excludes root earlier past path included

section

variable {excludes : List String} {root : TargetFile} {files since : List IncludedFile}
  {log : List Reply} {included : IncludedFile}

theorem Searched.extend {grammar : Grammar} {site : IncludeSite} {depth : Nat} {paths : List Path}
    (h : Searched excludes grammar site depth files log paths)
    (deep : ∀ file ∈ since, depth ≤ file.depth) (calls : List Reply) :
    Searched excludes grammar site depth (files ++ since) (log ++ calls) paths := by
  obtain ⟨mem, offset, files_eq, log_eq, given, deep'⟩ := h
  exact .intro mem offset (by rw [files_eq, List.append_assoc])
    (by rw [log_eq, List.append_assoc, List.cons_append]) given
    (List.forall_mem_append.2 ⟨deep', deep⟩)

theorem Explained.nested (h : Explained excludes root files log) :
    AllNested root.document files := by
  intro earlier included later split
  obtain ⟨_, _, _, -, provenance⟩ := h earlier included later split
  exact provenance.nested

theorem Explained.extend (h : Explained excludes root files log) (calls : List Reply) :
    Explained excludes root files (log ++ calls) := by
  intro earlier included later split
  obtain ⟨past, path, rest, rfl, provenance⟩ := h earlier included later split
  exact ⟨past, path, rest ++ calls, by rw [List.append_assoc, List.cons_append], provenance⟩

theorem Explained.snoc (h : Explained excludes root files log) {path : Path}
    (provenance : Provenance excludes root files log path included) :
    Explained excludes root (files ++ [included])
      (log ++ [.loaded path (.ok included.file.document)]) := by
  intro earlier other later split
  rcases snoc_split split with ⟨rfl, rfl, rfl⟩ | ⟨between, rfl, rfl⟩
  · exact ⟨log, path, [], rfl, provenance⟩
  · exact h.extend _ earlier other between rfl

end

namespace Walk

variable {σ : Type} {walker : Walker σ}

/-! ## Histories -/

/-- What every round keeps of a walk and the files it has given so far. -/
structure Keeps (walker : Walker σ) (P : List IncludedFile → Walk → σ → Prop) : Prop where
  again : ∀ {files walk after state later}, Again walker walk state after later →
    P files walk state → P files after later
  found : ∀ {files walk after state later included}, Found walker walk state included after later →
    P files walk state → P (files ++ [included]) after later

theorem Keeps.next? {P : List IncludedFile → Walk → σ → Prop} (keeps : Keeps walker P)
    {files : List IncludedFile} {walk : Walk} {state : σ} (h : P files walk state) :
    match Walk.next? walker walk state with
    | (none, final) => ∃ after, P files after final
    | (some (included, after), later) => P (files ++ [included]) after later := by
  fun_induction Walk.next? walker walk state with
  | case1 walk state => exact ⟨walk, h⟩
  | case2 walk state after later step ih => exact ih (keeps.again (again_of_round step) h)
  | case3 walk state included after later step => exact keeps.found (found_of_round step) h

theorem Keeps.gather {P : List IncludedFile → Walk → σ → Prop} (keeps : Keeps walker P)
    (demand : Nat) {files : List IncludedFile} {walk : Walk} {state : σ} (h : P files walk state) :
    let pulled := Walk.gather walker (fun included => [included]) demand none walk state
    ∃ after, P (files ++ pulled.1) after pulled.2 := by
  induction demand generalizing files walk state with
  | zero => exact ⟨walk, by rwa [gather_zero, List.append_nil]⟩
  | succ demand ih =>
    have step := keeps.next? h
    rw [gather_succ]
    generalize Walk.next? walker walk state = pull at step ⊢
    obtain ⟨_ | ⟨included, after⟩, later⟩ := pull
    · simpa using step
    · simpa using ih step

/-! ## Frames -/

/-- A file under way is the root, at depth 0, or the last file given at its depth, and only deeper
ones were given since. -/
inductive Entered (root : Document) (files : List IncludedFile) : Document → Nat → Prop where
  | root : Entered root files root 0
  | file {before between : List IncludedFile} {includer : IncludedFile}
      (files_eq : files = before ++ includer :: between) (pos : 0 < includer.depth)
      (deeper : ∀ other ∈ between, includer.depth < other.depth) :
      Entered root files includer.file.document includer.depth

/-- What is known of a file under way when `files` have been given: what it is, that the directives
left are its own, and which search the pending paths come from. -/
structure Frame.Traced (excludes : List String) (root : TargetFile) (files : List IncludedFile)
    (log : List Reply) (frame : Frame) : Prop where
  grammar : frame.file.grammar = root.grammar
  entered : Entered root.document files frame.file.document frame.depth
  edges : ∀ edge ∈ frame.edges, edge ∈ frame.file.edges
  pending : ∀ path ∈ frame.pending, ∃ paths, path ∈ paths ∧
    Searched excludes root.grammar ⟨frame.file.document, frame.siteOffset⟩ (frame.depth + 1) files
      log paths

/-- What is known of a walk when `files` have been given. No file under way is deeper than one that
was entered from it. -/
structure Recalls (excludes : List String) (root : TargetFile) (files : List IncludedFile)
    (walk : Walk) (log : List Reply) : Prop where
  given : documents log = documentsOf files
  explained : Explained excludes root files log
  frames : ∀ frame ∈ walk.stack, Frame.Traced excludes root files log frame
  layered : walk.stack.Pairwise fun upper lower => lower.depth ≤ upper.depth

variable {excludes : List String} {root : TargetFile} {files since : List IncludedFile}
  {log calls : List Reply} {walk after : Walk} {state later : σ × List Reply}
  {included : IncludedFile} {frame : Frame}

theorem Entered.extend {root document : Document} {depth : Nat}
    (h : Entered root files document depth) (deeper : ∀ file ∈ since, depth < file.depth) :
    Entered root (files ++ since) document depth := by
  cases h with
  | root => exact .root
  | file files_eq pos deeper' =>
    exact .file (by rw [files_eq, List.append_assoc, List.cons_append]) pos
      (List.forall_mem_append.2 ⟨deeper', deeper⟩)

/-- A file is nested in those before it if its directive stands in one of the files under way. -/
theorem Entered.nested {document : Document} {depth : Nat}
    (h : Entered root.document files document depth) (depth_eq : included.depth = depth + 1)
    (site : included.site.document = document) : Nested root.document files included := by
  cases h with
  | root => exact ⟨by omega, fun _ => site, fun top => absurd depth_eq top⟩
  | file files_eq pos deeper =>
    refine ⟨by omega, fun top => by omega, fun _ => ⟨_, _, _, files_eq, by omega, site, ?_⟩⟩
    intro other mem
    have := deeper other mem
    omega

/-- What is known of a file under way stays known while deeper files are given. -/
theorem Frame.Traced.extend (h : Frame.Traced excludes root files log frame)
    (deeper : ∀ file ∈ since, frame.depth < file.depth) (calls : List Reply) :
    Frame.Traced excludes root (files ++ since) (log ++ calls) frame where
  grammar := h.grammar
  entered := h.entered.extend deeper
  edges := h.edges
  pending := by
    intro path mem
    obtain ⟨paths, found, searched⟩ := h.pending path mem
    exact ⟨paths, found, searched.extend deeper calls⟩

theorem Frame.Traced.quiet (h : Frame.Traced excludes root files log frame)
    (calls : List Reply) : Frame.Traced excludes root files (log ++ calls) frame := by
  simpa using h.extend (List.forall_mem_nil _) calls

section

variable {file : TargetFile} {depth offset : Nat} {edge : IncludeEdge} {edges : List IncludeEdge}
  {path : Path} {pending : List Path}

theorem Frame.Traced.tail
    (h : Frame.Traced excludes root files log ⟨file, depth, edges, path :: pending, offset⟩) :
    Frame.Traced excludes root files log ⟨file, depth, edges, pending, offset⟩ :=
  ⟨h.grammar, h.entered, h.edges, fun other mem => h.pending other (List.mem_cons_of_mem path mem)⟩

theorem Frame.Traced.skip
    (h : Frame.Traced excludes root files log ⟨file, depth, edge :: edges, pending, offset⟩) :
    Frame.Traced excludes root files log ⟨file, depth, edges, [], edge.offset⟩ :=
  ⟨h.grammar, h.entered, fun other mem => h.edges other (List.mem_cons_of_mem edge mem),
    List.forall_mem_nil _⟩

/-- What a search for the next directive of the file under way finds becomes pending. -/
theorem Frame.Traced.search
    (h : Frame.Traced excludes root files log ⟨file, depth, edge :: edges, pending, offset⟩)
    (given : documents log = documentsOf files) (paths : List Path) :
    Frame.Traced excludes root files
      (log ++ [.found file.directory [edge.argument] excludes (.ok paths)])
      ⟨file, depth, edges, paths, edge.offset⟩ where
  grammar := h.grammar
  entered := h.entered
  edges := h.skip.edges
  pending := by
    intro path mem
    have own := h.edges edge List.mem_cons_self
    have none : ∀ file ∈ ([] : List IncludedFile), depth + 1 ≤ file.depth := List.forall_mem_nil _
    refine ⟨paths, mem, .intro ?_ rfl (List.append_nil files).symm rfl given none⟩
    rwa [← h.grammar]

/-- The file that is loaded at a pending path comes from the directive of its search. -/
theorem Frame.Traced.provenance
    (h : Frame.Traced excludes root files log ⟨file, depth, edges, path :: pending, offset⟩)
    (given : documents log = documentsOf files) (document : Document) :
    Provenance excludes root files log path
      ⟨⟨document, file.grammar⟩, ⟨file.document, offset⟩, depth + 1⟩ where
  grammar := h.grammar
  given := given
  searched := h.pending path List.mem_cons_self
  nested := h.entered.nested rfl rfl

end

/-! ## Rounds -/

theorem Recalls.goOn {recursive : Bool} {visited visited' : List Path} {top next : Frame}
    {below : List Frame} (h : Recalls excludes root files ⟨recursive, visited, top :: below⟩ log)
    (silent : documents calls = []) (traced : Frame.Traced excludes root files (log ++ calls) next)
    (depth : next.depth = top.depth) :
    Recalls excludes root files ⟨recursive, visited', next :: below⟩ (log ++ calls) where
  given := by rw [documents_append, silent, List.append_nil, h.given]
  explained := h.explained.extend calls
  frames := by
    refine List.forall_mem_cons.2 ⟨traced, fun frame mem => ?_⟩
    exact (h.frames frame (List.mem_cons_of_mem top mem)).quiet calls
  layered := by
    have layered := List.pairwise_cons.1 h.layered
    exact List.pairwise_cons.2 ⟨by rw [depth]; exact layered.1, layered.2⟩

section

variable {recursive : Bool} {visited visited' : List Path} {file : TargetFile} {depth offset : Nat}
  {edges : List IncludeEdge} {path : Path} {pending : List Path} {below : List Frame}

theorem Recalls.tail
    (h : Recalls excludes root files
      ⟨recursive, visited, ⟨file, depth, edges, path :: pending, offset⟩ :: below⟩ log) :
    Recalls excludes root files
      ⟨recursive, visited', ⟨file, depth, edges, pending, offset⟩ :: below⟩ log := by
  have next := (h.frames _ List.mem_cons_self).tail.quiet []
  simpa only [List.append_nil] using h.goOn documents_nil next rfl

/-- The next file is given, loaded at a pending path of the innermost file under way. -/
theorem Recalls.give
    (h : Recalls excludes root files
      ⟨recursive, visited, ⟨file, depth, edges, path :: pending, offset⟩ :: below⟩ log)
    (document : Document) :
    let inner : TargetFile := ⟨document, file.grammar⟩
    let frames := ⟨file, depth, edges, pending, offset⟩ :: below
    Recalls excludes root (files ++ [⟨inner, ⟨file.document, offset⟩, depth + 1⟩])
      ⟨recursive, visited',
        if recursive then ⟨inner, depth + 1, inner.edges, [], 0⟩ :: frames else frames⟩
      (log ++ [.loaded path (.ok document)]) := by
  intro inner frames
  have top := h.frames _ List.mem_cons_self
  have tail : Recalls excludes root files ⟨recursive, visited, frames⟩ log := h.tail
  have layered := tail.layered
  have shallow : ∀ frame ∈ frames, frame.depth ≤ depth :=
    List.forall_mem_cons.2 ⟨Nat.le_refl depth, (List.pairwise_cons.1 layered).1⟩
  have traced : ∀ frame ∈ frames, Frame.Traced excludes root
      (files ++ [⟨inner, ⟨file.document, offset⟩, depth + 1⟩])
      (log ++ [.loaded path (.ok document)]) frame := by
    intro frame mem
    refine (tail.frames frame mem).extend (List.forall_mem_singleton.2 ?_) _
    exact Nat.lt_succ_of_le (shallow frame mem)
  have new : Frame.Traced excludes root
      (files ++ [⟨inner, ⟨file.document, offset⟩, depth + 1⟩])
      (log ++ [.loaded path (.ok document)]) ⟨inner, depth + 1, inner.edges, [], 0⟩ :=
    ⟨top.grammar, .file rfl (Nat.succ_pos depth) (List.forall_mem_nil _), fun _ mem => mem,
      List.forall_mem_nil _⟩
  refine ⟨by simp [h.given, documentsOf, inner], h.explained.snoc (top.provenance h.given document),
    ?frames, ?layered⟩
  case frames =>
    cases recursive with
    | false => exact traced
    | true => exact List.forall_mem_cons.2 ⟨new, traced⟩
  case layered =>
    cases recursive with
    | false => exact layered
    | true =>
      exact List.pairwise_cons.2 ⟨fun frame mem => Nat.le_succ_of_le (shallow frame mem), layered⟩

end

theorem recalls_keeps (walker : Walker σ) (root : TargetFile) :
    Keeps walker.logged fun files walk state =>
      Recalls walker.excludes root files walk state.2 where
  again := by
    intro files walk after state later h recalls
    cases h with
    | visited => exact recalls.tail
    | notLoaded _ load =>
      have top := recalls.frames _ List.mem_cons_self
      rw [Walker.logged_note, (Walker.logged_load load).2]
      exact recalls.goOn (documents_failed ..) (top.tail.quiet _) rfl
    | searched find =>
      have top := recalls.frames _ List.mem_cons_self
      rw [(Walker.logged_find find).2]
      exact recalls.goOn (documents_found ..) (top.search recalls.given _) rfl
    | notSearched find =>
      have top := recalls.frames _ List.mem_cons_self
      rw [Walker.logged_note, (Walker.logged_find find).2]
      exact recalls.goOn (documents_found ..) (top.skip.quiet _) rfl
    | done =>
      exact ⟨recalls.given, recalls.explained, (List.forall_mem_cons.1 recalls.frames).2,
        (List.pairwise_cons.1 recalls.layered).2⟩
  found := by
    intro files walk after state later included h recalls
    cases h with
    | loaded _ load =>
      rw [(Walker.logged_load load).2]
      exact recalls.give _

theorem recalls_start {edges : List IncludeEdge} (own : ∀ edge ∈ edges, edge ∈ root.edges)
    (recursive : Bool) (visited : List Path) :
    Recalls excludes root [] (start root edges recursive visited) [] where
  given := rfl
  explained earlier included later split := by simp at split
  frames := List.forall_mem_singleton.2 ⟨rfl, .root, own, List.forall_mem_nil _⟩
  layered := List.pairwise_singleton _ _

/-- Where found files are not expanded, only the root is under way. -/
theorem flat_invariant (walker : Walker σ) :
    Invariant walker fun walk _ =>
      walk.recursive = false ∧ ∀ frame ∈ walk.stack, frame.depth = 0 where
  again := by
    rintro walk after state later h ⟨flat, depths⟩
    refine ⟨by cases h <;> exact flat, ?_⟩
    cases h with
    | done => exact (List.forall_mem_cons.1 depths).2
    | _ => exact List.forall_mem_cons.2 (List.forall_mem_cons.1 depths)
  found := by
    rintro walk after state later included h ⟨flat, depths⟩
    cases h with
    | loaded =>
      obtain rfl := flat
      exact ⟨rfl, List.forall_mem_cons.2 (List.forall_mem_cons.1 depths)⟩

theorem depth_of_flat {root : TargetFile} {edges : List IncludeEdge} {visited : List Path}
    {state : σ} {demand : Nat} {included : IncludedFile}
    (mem : included ∈ (gather walker (fun included => [included]) demand none
      (start root edges false visited) state).1) : included.depth = 1 := by
  have gives : ∀ {walk after : Walk} {state later : σ} {included : IncludedFile},
      Found walker walk state included after later →
        (walk.recursive = false ∧ ∀ frame ∈ walk.stack, frame.depth = 0) →
          included.depth = 1 := by
    rintro walk after state later included step ⟨-, depths⟩
    cases step
    exact congrArg Nat.succ (depths _ List.mem_cons_self)
  have flat : ∀ frame ∈ (start root edges false visited).stack, frame.depth = 0 := by
    simp [start]
  obtain ⟨other, depth, mem⟩ := (flat_invariant walker).mem_gather gives ⟨rfl, flat⟩ mem
  obtain rfl := List.mem_singleton.1 mem
  exact depth

end Walk

/-- **Every file of a walk stands below a directive.** However many files are pulled out of a walk
through directives of a root, each of them was loaded at a path that a search found for a directive
at its site, in the directory of the site's document and with the grammar of the root. The site lies
in the root at depth 1, and otherwise in the last file before with the depth above, so the sites
lead up to the root in exactly as many steps as the file is deep. The depth rises by at most 1 from
one file to the next, and is 1 throughout where found files are not expanded. -/
theorem files_stand_below_directives {σ : Type} (walker : Walker σ) (root : TargetFile)
    (edges : List IncludeEdge) (own : ∀ edge ∈ edges, edge ∈ root.edges) (recursive : Bool)
    (visited : List Path) (state : σ) (demand : Nat) :
    let walk := Walk.start root edges recursive visited
    let files := (Walk.gather walker (fun included => [included]) demand none walk state).1
    let log :=
      (Walk.gather walker.logged (fun included => [included]) demand none walk (state, [])).2.2
    (∀ earlier included later, files = earlier ++ included :: later →
      (∃ past path rest, log = past ++ .loaded path (.ok included.file.document) :: rest ∧
        Provenance walker.excludes root earlier past path included) ∧
      ∀ steps, Climbs root.document earlier included steps ↔ steps = included.depth) ∧
    (∀ earlier included next later, files = earlier ++ included :: next :: later →
      next.depth ≤ included.depth + 1) ∧
    (recursive = false → ∀ included ∈ files, included.depth = 1) := by
  intro walk files log
  have start : Walk.Recalls walker.excludes root [] walk ((state, []) : σ × List Reply).2 :=
    Walk.recalls_start own recursive visited
  obtain ⟨after, recalls⟩ := (Walk.recalls_keeps walker root).gather demand start
  rw [(Walk.gather_logged ..).1, List.nil_append] at recalls
  have nested := recalls.explained.nested
  refine ⟨fun earlier included later split => ⟨?_, fun steps => ?_⟩,
    fun earlier included next later split => nested.depth_le split, ?_⟩
  · exact recalls.explained earlier included later split
  · have climbs := nested.climbs split
    exact ⟨fun other => other.unique climbs, fun same => same ▸ climbs⟩
  · rintro rfl included mem
    exact Walk.depth_of_flat mem

/-- The second file of the ring is included by the first, and the first by the root. -/
theorem ring_climbs_in_two_steps :
    (∀ edge ∈ ringRoot.edges, edge ∈ ringRoot.edges) ∧
      ∃ first second,
        (Walk.gather ⟨ring.source, [], 2⟩ (fun included => [included]) 2 none
          (Walk.start ringRoot ringRoot.edges true []) ()).1 = [first, second] ∧
        second.file.path = ⟨"b"⟩ ∧ second.site = ⟨⟨⟨"a"⟩, "include b\na:\n"⟩, 0⟩ ∧
        Climbs ringRoot.document [first] second 2 := by
  have files : Walk.filesWithin? ⟨ring.source, [], 2⟩ 20
      (Walk.start ringRoot ringRoot.edges true []) () = some
        [⟨⟨⟨⟨"a"⟩, "include b\na:\n"⟩, .make⟩, ⟨ringRoot.document, 0⟩, 1⟩,
          ⟨⟨⟨⟨"b"⟩, "include a\nb:\n"⟩, .make⟩, ⟨⟨⟨"a"⟩, "include b\na:\n"⟩, 0⟩, 2⟩] := by
    decide +kernel
  obtain ⟨final, ends⟩ := Walk.ends_of_filesWithin? files
  have pulled := ends.pulled_eq 2
  obtain ⟨places, -⟩ := files_stand_below_directives ⟨ring.source, [], 2⟩ ringRoot ringRoot.edges
    (fun _ mem => mem) true [] () 2
  exact ⟨fun _ mem => mem, _, _, pulled, rfl, rfl, ((places [_] _ [] pulled).2 2).2 rfl⟩

end BuildTargets
