import BuildTargets.Proofs.Walk.Run

/-!
# Where the files of a walk come from

The files of a walk are read at paths that were found, with the grammar of the root, and the
directive that a file was reached through stands in the root or in another file of the walk.
-/

namespace BuildTargets.Walk

variable {σ : Type} {walker : Walker σ}

/-- Where `holds` is true of the state, questions keep it so, searches find nothing but paths that
are `found`, and what is loaded at such a path is `read`. -/
structure Origins (walker : Walker σ) (holds : σ → Prop) (found : Path → Prop)
    (read : Document → Prop) : Prop where
  find : ∀ {base patterns excludes state answer later}, holds state →
    walker.source.find base patterns excludes state = (answer, later) →
      holds later ∧ ∀ paths, answer = .ok paths → ∀ path ∈ paths, found path
  load : ∀ {path state answer later}, holds state → found path →
    walker.source.load path state = (answer, later) →
      holds later ∧ ∀ document, answer = .ok document → read document
  note : ∀ {remark state}, holds state → holds (walker.source.note remark state)

/-- A file under way is the root or was read, has the grammar of the root, and its pending paths
were found. -/
structure Frame.Descends (found : Path → Prop) (read : Document → Prop) (root : TargetFile)
    (frame : Frame) : Prop where
  grammar : frame.file.grammar = root.grammar
  document : frame.file.document = root.document ∨ read frame.file.document
  pending : ∀ path ∈ frame.pending, found path

/-- An included file was read, has the grammar of the root, and was reached from the root or from
a file that was read. -/
structure Descends (read : Document → Prop) (root : TargetFile) (included : IncludedFile) :
    Prop where
  grammar : included.file.grammar = root.grammar
  document : read included.file.document
  site : included.site.document = root.document ∨ read included.site.document

variable {holds : σ → Prop} {found : Path → Prop} {read : Document → Prop} {root : TargetFile}

theorem Origins.descends (origins : Origins walker holds found read) {walk after : Walk}
    {state later : σ} {included : IncludedFile} (h : Found walker walk state included after later)
    (held : holds state)
    (frames : ∀ frame ∈ walk.stack, Frame.Descends found read root frame) :
    Descends read root included := by
  cases h with
  | loaded _ load =>
    have top := frames _ List.mem_cons_self
    have pending := top.pending _ List.mem_cons_self
    exact ⟨top.grammar, (origins.load held pending load).2 _ rfl, top.document⟩

theorem Origins.invariant (origins : Origins walker holds found read) (root : TargetFile) :
    Invariant walker fun walk state =>
      holds state ∧ ∀ frame ∈ walk.stack, Frame.Descends found read root frame where
  again := by
    rintro walk after state later h ⟨held, frames⟩
    cases h with
    | visited =>
      obtain ⟨top, below⟩ := List.forall_mem_cons.1 frames
      have pending := (List.forall_mem_cons.1 top.pending).2
      exact ⟨held, List.forall_mem_cons.2 ⟨⟨top.grammar, top.document, pending⟩, below⟩⟩
    | notLoaded _ load =>
      obtain ⟨top, below⟩ := List.forall_mem_cons.1 frames
      obtain ⟨first, pending⟩ := List.forall_mem_cons.1 top.pending
      exact ⟨origins.note (origins.load held first load).1,
        List.forall_mem_cons.2 ⟨⟨top.grammar, top.document, pending⟩, below⟩⟩
    | searched find =>
      obtain ⟨top, below⟩ := List.forall_mem_cons.1 frames
      obtain ⟨held, pending⟩ := origins.find held find
      exact ⟨held, List.forall_mem_cons.2 ⟨⟨top.grammar, top.document, pending _ rfl⟩, below⟩⟩
    | notSearched find =>
      obtain ⟨top, below⟩ := List.forall_mem_cons.1 frames
      have held := (origins.find held find).1
      exact ⟨origins.note held,
        List.forall_mem_cons.2 ⟨⟨top.grammar, top.document, List.forall_mem_nil _⟩, below⟩⟩
    | done => exact ⟨held, (List.forall_mem_cons.1 frames).2⟩
  found := by
    rintro walk after state later included h ⟨held, frames⟩
    have descends := origins.descends h held frames
    cases h with
    | @loaded recursive _ file depth edges _ pending offset frames' _ _ _ _ load =>
      obtain ⟨top, below⟩ := List.forall_mem_cons.1 frames
      obtain ⟨first, later⟩ := List.forall_mem_cons.1 top.pending
      have rest : ∀ frame ∈ ⟨file, depth, edges, pending, offset⟩ :: frames',
          Frame.Descends found read root frame :=
        List.forall_mem_cons.2 ⟨⟨top.grammar, top.document, later⟩, below⟩
      refine ⟨(origins.load held first load).1, ?_⟩
      cases recursive with
      | false => exact rest
      | true =>
        exact List.forall_mem_cons.2
          ⟨⟨descends.grammar, .inr descends.document, List.forall_mem_nil _⟩, rest⟩

theorem Origins.mem_gather {α : Type} (origins : Origins walker holds found read)
    {items : IncludedFile → List α} {fuel : Nat} {edges : List IncludeEdge} {recursive : Bool}
    {visited : List Path} {state : σ} (held : holds state) {item : α}
    (mem : item ∈ (gather walker items fuel none (start root edges recursive visited) state).1) :
    ∃ included, Descends read root included ∧ item ∈ items included := by
  have start : ∀ frame ∈ (start root edges recursive visited).stack,
      Frame.Descends found read root frame := by
    intro frame mem
    obtain rfl := List.mem_singleton.1 mem
    exact ⟨rfl, .inl rfl, List.forall_mem_nil _⟩
  exact (origins.invariant root).mem_gather (fun step ⟨held, frames⟩ =>
    origins.descends step held frames) ⟨held, start⟩ mem

end BuildTargets.Walk
