import BuildTargets.Proofs.Grammar.Includes
import BuildTargets.Proofs.Walk.Sites

/-!
# Targets by line

The targets that are reached through the directives on one line are asked for in a walk of their
own. Over a source whose answers never change, the walks for the single lines and the walk for the
whole file agree: on how much is reached, on which targets these are, and on the directives that
bring them in.
-/

namespace BuildTargets

variable {σ : Type} {walker : Walker σ} {answers : Answers} {known : List Path} {root : TargetFile}
  {edges : List IncludeEdge}

/-! ## Walks from different states -/

namespace Walk

theorem round_steady (steady : walker.source.Steady answers known) (walk : Walk) (state other : σ) :
    match round walker walk state with
    | .ended => round walker walk other = .ended
    | .again after _ => ∃ later, round walker walk other = .again after later
    | .found included after _ =>
      ∃ later, round walker walk other = .found included after later := by
  obtain ⟨recursive, visited, _ | ⟨⟨file, depth, edges, _ | ⟨path, pending⟩, offset⟩, below⟩⟩ :=
    walk
  · rfl
  · cases edges with
    | nil => exact ⟨other, rfl⟩
    | cons edge edges =>
      have same := (steady.find_eq file.directory [edge.argument] walker.excludes state).trans
        (steady.find_eq file.directory [edge.argument] walker.excludes other).symm
      unfold round
      dsimp only
      generalize walker.source.find file.directory [edge.argument] walker.excludes state = here at *
      generalize walker.source.find file.directory [edge.argument] walker.excludes other = there
        at *
      obtain ⟨_ | paths, later⟩ := here <;> obtain ⟨_ | paths', later'⟩ := there <;> cases same
      · exact ⟨_, rfl⟩
      · exact ⟨_, rfl⟩
  · have same := (steady.load_eq path state).trans (steady.load_eq path other).symm
    unfold round
    dsimp only
    generalize walker.source.load path state = here at *
    generalize walker.source.load path other = there at *
    by_cases old : hasVisited ⟨recursive, visited,
        ⟨file, depth, edges, path :: pending, offset⟩ :: below⟩ path = true
    · rw [if_pos old, if_pos old]
      exact ⟨other, rfl⟩
    · rw [if_neg old, if_neg old]
      obtain ⟨_ | document, later⟩ := here <;> obtain ⟨_ | document', later'⟩ := there <;>
        cases same
      · exact ⟨_, rfl⟩
      · exact ⟨_, rfl⟩

theorem Ends.from_state (steady : walker.source.Steady answers known) {walk : Walk}
    {state final : σ} {files : List IncludedFile} (h : Ends walker walk state files final)
    (other : σ) : ∃ final, Ends walker walk other files final := by
  induction h generalizing other with
  | @ended walk state step =>
    have same := round_steady steady walk state other
    rw [step] at same
    exact ⟨other, .ended same⟩
  | @again walk after state _ _ _ step _ ih =>
    have same := round_steady steady walk state other
    rw [step] at same
    obtain ⟨later, same⟩ := same
    obtain ⟨final, rest⟩ := ih later
    exact ⟨final, .again same rest⟩
  | @found walk after state _ _ _ _ step _ ih =>
    have same := round_steady steady walk state other
    rw [step] at same
    obtain ⟨later, same⟩ := same
    obtain ⟨final, rest⟩ := ih later
    exact ⟨final, .found same rest⟩

end Walk

/-! ## One line after the other -/

theorem Answers.Reaches.mono {excludes : List String} {visited : List Path}
    {more : List IncludeEdge} (sub : edges ⊆ more) {path : Path}
    (h : answers.Reaches excludes root edges visited path) :
    answers.Reaches excludes root more visited path := by
  induction h with
  | first leads =>
    obtain ⟨edge, mem, found⟩ := leads
    exact .first ⟨edge, sub mem, found⟩
  | next _ enters leads ih => exact .next ih enters leads

theorem Answers.Reaches.exists_edge {excludes : List String} {visited : List Path} {path : Path}
    (h : answers.Reaches excludes root edges visited path) :
    ∃ edge ∈ edges, answers.Reaches excludes root [edge] visited path := by
  induction h with
  | first leads =>
    obtain ⟨edge, mem, found⟩ := leads
    exact ⟨edge, mem, .first ⟨edge, List.mem_cons_self, found⟩⟩
  | next _ enters leads ih =>
    obtain ⟨edge, mem, reaches⟩ := ih
    exact ⟨edge, mem, .next reaches enters leads⟩

theorem filter_eq_singleton {α : Type} {number : α → Nat} {items : List α}
    (ascending : items.Pairwise fun a b => number a < number b) {item : α} (mem : item ∈ items) :
    (items.filter fun other => number other == number item) = [item] := by
  induction ascending with
  | nil => cases mem
  | @cons first rest before _ ih =>
    rcases List.mem_cons.1 mem with rfl | later
    · have none : (rest.filter fun other => number other == number item) = [] :=
        List.filter_eq_nil_iff.2 fun other held => by
          have := before other held
          rw [beq_iff_eq]
          omega
      rw [List.filter_cons_of_pos (by simp), none]
    · have := before item later
      rw [List.filter_cons_of_neg (by rw [beq_iff_eq]; omega), ih later]

theorem TargetFile.edges_on_line {edge : IncludeEdge} (mem : edge ∈ root.edges) :
    (root.edges.filter fun other => root.document.lineNumber other.offset ==
      root.document.lineNumber edge.offset) = [edge] :=
  filter_eq_singleton root.edges_lines mem

/-! ## Targets that are reached -/

namespace Walker

/-- The targets reached through some directives are those of the files of one walk, whatever the
state is that they are asked for in. -/
theorem exists_files (steady : walker.source.Steady answers known)
    (enough : known.length ≤ walker.limit) (root : TargetFile) (edges : List IncludeEdge) :
    ∃ files, ∀ state,
      (walker.targetsThrough root edges (fun _ => true) none state).1 =
          files.flatMap (fun included => included.targets root.document) ∧
        ∃ final, Walk.Ends walker (Walk.start root edges true []) state files final := by
  by_cases inhabited : Nonempty σ
  · obtain ⟨state⟩ := inhabited
    obtain ⟨files, _, ends, le⟩ := steady.exists_ends root edges state
    refine ⟨files, fun other => ?_⟩
    obtain ⟨final, ends⟩ := ends.from_state steady other
    exact ⟨targetsThrough_eq ends (Nat.le_trans le enough), final, ends⟩
  · exact ⟨[], fun state => absurd ⟨state⟩ inhabited⟩

/-- The declarations reached through some directives are those of the files that the directives
arrive at. -/
theorem exists_declared_iff (steady : walker.source.Steady answers known)
    (enough : known.length ≤ walker.limit) (root : TargetFile) (edges : List IncludeEdge)
    (state : σ) (declared : Target) :
    (∃ target ∈ (walker.targetsThrough root edges (fun _ => true) none state).1,
        target.declared = declared) ↔
      ∃ file, Walk.Arrives answers walker.excludes root edges [] file ∧
        declared ∈ file.targets := by
  obtain ⟨files, given⟩ := exists_files steady enough root edges
  obtain ⟨targets, final, ends⟩ := given state
  rw [targets]
  constructor
  · rintro ⟨target, mem, rfl⟩
    obtain ⟨included, held, listed⟩ := List.mem_flatMap.1 mem
    obtain ⟨declared, inside, rfl⟩ := List.mem_map.1 listed
    exact ⟨included.file,
      ends.arrives steady Walk.pendingOnly_start Walk.traces_start included held, inside⟩
  · rintro ⟨file, arrives, mem⟩
    obtain ⟨included, held, path⟩ :=
      ends.gives_reached steady arrives.reaches arrives.enters
    have here := ends.arrives steady Walk.pendingOnly_start Walk.traces_start included held
    have same := here.eq_of_path arrives path
    exact ⟨⟨declared, root.document, included.site⟩, List.mem_flatMap.2 ⟨included, held,
      List.mem_map.2 ⟨declared, same ▸ mem, rfl⟩⟩, rfl⟩

/-- A target that a directive in the root brings in is reached through that directive alone. -/
theorem mem_alone (steady : walker.source.Steady answers known)
    (enough : known.length ≤ walker.limit) {state : σ} {target : IncludedTarget}
    (mem : target ∈ (walker.targetsThrough root edges (fun _ => true) none state).1)
    (site : target.site.document.path.same root.path = true) (other : σ) :
    ∃ edge ∈ edges, target.site = ⟨root.document, edge.offset⟩ ∧
      target ∈ (walker.targetsThrough root [edge] (fun _ => true) none other).1 := by
  obtain ⟨files, given⟩ := exists_files steady enough root edges
  obtain ⟨targets, _, ends⟩ := given state
  rw [targets] at mem
  obtain ⟨included, held, listed⟩ := List.mem_flatMap.1 mem
  obtain ⟨declared, inside, rfl⟩ := List.mem_map.1 listed
  have arrives := ends.arrives steady Walk.pendingOnly_start Walk.traces_start included held
  obtain ⟨edge, edge_mem, at_edge, alone⟩ :=
    (ends.broughtIn steady held site).alone steady arrives.enters
  obtain ⟨files', given'⟩ := exists_files steady enough root [edge]
  obtain ⟨targets', _, ends'⟩ := given' other
  obtain ⟨found, held', path, site'⟩ := alone ends'
  have arrives' := ends'.arrives steady Walk.pendingOnly_start Walk.traces_start found held'
  refine ⟨edge, edge_mem, at_edge, ?_⟩
  rw [targets', List.mem_flatMap]
  refine ⟨found, held', List.mem_map.2 ⟨declared, ?_, by rw [site']⟩⟩
  rw [arrives'.eq_of_path arrives path]
  exact inside

/-- Directives that each lead to as many targets whatever the state is are listed with these
numbers. -/
theorem anchorsFor_eq (walker : Walker σ) (root : TargetFile) {count : IncludeEdge → Nat}
    (counts : ∀ edge ∈ edges, ∀ state,
      (walker.targetsThrough root [edge] (fun _ => true) none state).1.length = count edge)
    (state : σ) :
    (walker.anchorsFor root edges state).1 =
      edges.map fun edge => ⟨root.document.lineAt edge.offset, edge.argument, count edge⟩ := by
  induction edges generalizing state with
  | nil => rfl
  | cons edge edges ih =>
    obtain ⟨first, rest⟩ := List.forall_mem_cons.1 counts
    rw [anchorsFor, List.map_cons, ← first state, ← ih rest]

end Walker

/-- **Line by line and as a whole, includes come to the same.** Over unchanging answers, and if the
walker may enter as many files as there are known paths, an include anchor stands for each directive
of the root, in order, and counts the targets that are reached on its line; what is declared by the
targets reached from the whole file is what is declared by those reached on some line; a target that
a directive in the root brings in is among those on the line of the directive; and on a line without
a directive there are none. The states in which all this is asked do not matter. -/
theorem line_views_agree (walker : Walker σ) (answers : Answers) (known : List Path)
    (steady : walker.source.Steady answers known) (enough : known.length ≤ walker.limit)
    (root : TargetFile) (state other : σ) :
    let atLine := fun line => (walker.targetsAtLine root line other).1
    let all := (walker.includedTargets root none state).1
    (walker.includeAnchors root state).1 = root.edges.map (fun edge =>
      let line := root.document.lineAt edge.offset
      ⟨line, edge.argument, (atLine line.number).length⟩) ∧
    (∀ declared, (∃ target ∈ all, target.declared = declared) ↔
      ∃ line, ∃ target ∈ atLine line, target.declared = declared) ∧
    (∀ target ∈ all, target.site.document.path.same root.path = true →
      target ∈ atLine target.site.line.number) ∧
    ∀ line, (∀ edge ∈ root.edges, (root.document.lineAt edge.offset).number ≠ line) →
      atLine line = [] := by
  intro atLine all
  have on_line : ∀ edge ∈ root.edges, atLine (root.document.lineAt edge.offset).number =
      (walker.targetsThrough root [edge] (fun _ => true) none other).1 := by
    intro edge mem
    simp only [atLine, Walker.targetsAtLine, Document.number_lineAt, TargetFile.edges_on_line mem]
  refine ⟨?_, fun declared => ?_, fun target mem site => ?_, fun line none => ?_⟩
  · refine Walker.anchorsFor_eq walker root (fun edge mem state => ?_) state
    obtain ⟨files, given⟩ := Walker.exists_files steady enough root [edge]
    rw [on_line edge mem, (given state).1, (given other).1]
  · refine (Walker.exists_declared_iff steady enough root root.edges state declared).trans ?_
    simp only [atLine, Walker.targetsAtLine, Walker.exists_declared_iff steady enough]
    constructor
    · rintro ⟨file, arrives, mem⟩
      obtain ⟨edge, held, reaches⟩ := arrives.reaches.exists_edge
      refine ⟨root.document.lineNumber edge.offset, file, ?_, mem⟩
      rw [TargetFile.edges_on_line held]
      exact ⟨arrives.grammar, reaches, arrives.enters⟩
    · rintro ⟨line, file, arrives, mem⟩
      have reaches := arrives.reaches.mono (List.filter_sublist.subset)
      exact ⟨file, ⟨arrives.grammar, reaches, arrives.enters⟩, mem⟩
  · obtain ⟨edge, held, at_edge, alone⟩ := Walker.mem_alone steady enough mem site other
    have line : target.site.line = root.document.lineAt edge.offset := by
      rw [at_edge]
      rfl
    rw [line, on_line edge held]
    exact alone
  · have empty : (root.edges.filter fun edge =>
        root.document.lineNumber edge.offset == line) = [] :=
      List.filter_eq_nil_iff.2 fun edge mem => by
        have := none edge mem
        rw [Document.number_lineAt] at this
        simpa using this
    refine List.eq_nil_iff_forall_not_mem.2 fun target mem => ?_
    simp only [atLine, Walker.targetsAtLine, empty] at mem
    obtain ⟨file, arrives, -⟩ :=
      (Walker.exists_declared_iff steady enough root [] other target.declared).1 ⟨target, mem, rfl⟩
    obtain ⟨edge, held, -⟩ := arrives.reaches.exists_edge
    cases held

def shared : Answers where
  find _ patterns _ := .ok (([⟨"a"⟩, ⟨"b"⟩] : List Path).filter fun path => path.text ∈ patterns)
  load path :=
    if path = ⟨"a"⟩ then .ok ⟨path, "include b\na:\n"⟩
    else if path = ⟨"b"⟩ then .ok ⟨path, "b:\n"⟩
    else .error (.documentNotFound path .missing)

def sharedRoot : TargetFile := ⟨⟨⟨"Makefile"⟩, "include a\ninclude b\n"⟩, .make⟩

theorem shared_root_has_two_anchors :
    let walker : Walker Unit := ⟨shared.source, [], 2⟩
    walker.source.Steady shared [⟨"a"⟩, ⟨"b"⟩] ∧
      (walker.includeAnchors sharedRoot ()).1.map (fun anchor =>
        (anchor.line.number, anchor.argument)) = [(0, "a"), (1, "b")] ∧
      (walker.targetsAtLine sharedRoot 2 ()).1 = [] := by
  intro walker
  have steady : walker.source.Steady shared [⟨"a"⟩, ⟨"b"⟩] := {
    find_eq := fun _ _ _ _ => rfl
    load_eq := fun _ _ => rfl
    mem_known := by
      intro base patterns excludes paths find path mem
      cases find
      exact (List.mem_filter.1 mem).1
    normal := by decide
    path_eq := by
      intro path mem document load
      simp only [shared] at load
      split at load
      · cases load; rfl
      · split at load <;> cases load; rfl }
  obtain ⟨anchors, -, -, empty⟩ :=
    line_views_agree walker shared _ steady (Nat.le_refl 2) sharedRoot () ()
  refine ⟨steady, ?_, empty 2 (by decide +kernel)⟩
  rw [anchors, List.map_map]
  decide +kernel

end BuildTargets
