import BuildTargets.Proofs.Walk.Run
import BuildTargets.Workspace

/-!
# What answers depend on

A question may look at a part of the state only. `Looks view ask`: the answer to `ask` depends on
the state as `view` shows it, and the state looks the same behind it. If a source looks at such a
part, then so does everything that is asked of it: files pulled out of a walk, targets, scans.
-/

namespace BuildTargets

variable {σ τ α β : Type} {view : σ → τ}

/-- The answer depends on what `view` shows of the state, and this is kept. -/
structure Looks (view : σ → τ) (ask : σ → α × σ) : Prop where
  kept : ∀ state, view (ask state).2 = view state
  same : ∀ {state other}, view state = view other → (ask state).1 = (ask other).1

namespace Looks

theorem answer (value : α) : Looks view fun state => (value, state) where
  kept _ := rfl
  same _ := rfl

/-- A question that goes on with the answer to another one. -/
theorem goes_on {ask : σ → β × σ} {first : σ → α × σ} (asks : Looks view first)
    (next : α → σ → β × σ) (steps : ∀ state, ask state = next (first state).1 (first state).2)
    (later : ∀ value, Looks view (next value)) : Looks view ask where
  kept state := by
    rw [steps]
    exact ((later _).kept _).trans (asks.kept state)
  same {state other} seen := by
    rw [steps, steps, asks.same seen]
    exact (later _).same ((asks.kept state).trans (seen.trans (asks.kept other).symm))

theorem goes_on_ok {ε : Type} {ask : σ → Except ε β × σ} {first : σ → Except ε α × σ}
    (asks : Looks view first) (next : α → σ → Except ε β × σ)
    (fails : ∀ {state cause after}, first state = (.error cause, after) →
      ask state = (.error cause, after))
    (steps : ∀ {state value after}, first state = (.ok value, after) →
      ask state = next value after)
    (later : ∀ value, Looks view (next value)) : Looks view ask where
  kept state := by
    have kept := asks.kept state
    rcases here : first state with ⟨cause | value, after⟩
    · rw [fails here, ← kept, here]
    · rw [steps here, (later value).kept, ← kept, here]
  same {state other} seen := by
    have same := asks.same seen
    have alike : view (first state).2 = view (first other).2 :=
      (asks.kept state).trans (seen.trans (asks.kept other).symm)
    rcases here : first state with ⟨cause | value, after⟩ <;>
      rcases there : first other with ⟨cause' | value', after'⟩ <;>
      rw [here, there] at same alike <;> cases same
    · rw [fails here, fails there]
    · rw [steps here, steps there]
      exact (later value).same alike

end Looks

/-- A source that looks at a part of the state: so do its answers, and remarks are not seen. -/
structure Source.Looks (view : σ → τ) (source : Source σ) : Prop where
  find : ∀ base patterns excludes, BuildTargets.Looks view (source.find base patterns excludes)
  load : ∀ path, BuildTargets.Looks view (source.load path)
  note : ∀ remark state, view (source.note remark state) = view state

/-- Files in a state are looked at as part of everything that remarks leave alone. -/
theorem Source.looks_ofFiles {files : σ → FileSystem} {note : Remark → σ → σ}
    (shows : ∀ {state other}, view state = view other → files state = files other)
    (unseen : ∀ remark state, view (note remark state) = view state) :
    (Source.ofFiles files note).Looks view where
  find base patterns excludes :=
    ⟨fun _ => rfl, fun seen => by simp only [Source.ofFiles, shows seen]⟩
  load path := ⟨fun _ => rfl, fun seen => by simp only [Source.ofFiles, shows seen]⟩
  note := unseen

/-! ## Walks -/

namespace Walk

variable {walker : Walker σ}

/-- Rounds from states that look alike do the same, and lead to states that look alike. -/
theorem round_looks (looks : walker.source.Looks view) (walk : Walk) {state other : σ}
    (seen : view state = view other) :
    match round walker walk state with
    | .ended => round walker walk other = .ended
    | .again after later => view later = view state ∧
        ∃ later', view later' = view other ∧ round walker walk other = .again after later'
    | .found included after later => view later = view state ∧
        ∃ later', view later' = view other ∧
          round walker walk other = .found included after later' := by
  obtain ⟨recursive, visited, _ | ⟨⟨file, depth, edges, _ | ⟨path, pending⟩, offset⟩, below⟩⟩ :=
    walk
  · rfl
  · cases edges with
    | nil => exact ⟨rfl, other, rfl, rfl⟩
    | cons edge edges =>
      have find := looks.find file.directory [edge.argument] walker.excludes
      have same := find.same seen
      have kept := find.kept state
      have kept' := find.kept other
      unfold round
      dsimp only
      generalize walker.source.find file.directory [edge.argument] walker.excludes state = here at *
      generalize walker.source.find file.directory [edge.argument] walker.excludes other = there
        at *
      obtain ⟨_ | paths, later⟩ := here <;> obtain ⟨_ | paths', later'⟩ := there <;> cases same
      · exact ⟨(looks.note _ _).trans kept, _, (looks.note _ _).trans kept', rfl⟩
      · exact ⟨kept, _, kept', rfl⟩
  · have load := looks.load path
    have same := load.same seen
    have kept := load.kept state
    have kept' := load.kept other
    unfold round
    dsimp only
    generalize walker.source.load path state = here at *
    generalize walker.source.load path other = there at *
    by_cases old : hasVisited ⟨recursive, visited,
        ⟨file, depth, edges, path :: pending, offset⟩ :: below⟩ path = true
    · rw [if_pos old, if_pos old]
      exact ⟨rfl, other, rfl, rfl⟩
    · rw [if_neg old, if_neg old]
      obtain ⟨_ | document, later⟩ := here <;> obtain ⟨_ | document', later'⟩ := there <;>
        cases same
      · exact ⟨(looks.note _ _).trans kept, _, (looks.note _ _).trans kept', rfl⟩
      · exact ⟨kept, _, kept', rfl⟩

theorem next?_looks (looks : walker.source.Looks view) (walk : Walk) :
    Looks view (next? walker walk) := by
  have both : ∀ (state other : σ), view state = view other →
      view (next? walker walk state).2 = view state ∧
        (next? walker walk state).1 = (next? walker walk other).1 := by
    intro state
    fun_induction next? walker walk state with
    | case1 walk state step =>
      intro other seen
      have same := round_looks looks walk seen
      rw [step] at same
      rw [next?_of_ended same]
      exact ⟨rfl, rfl⟩
    | case2 walk state after later step ih =>
      intro other seen
      have same := round_looks looks walk seen
      rw [step] at same
      obtain ⟨kept, later', kept', step'⟩ := same
      rw [next?_of_again step', ← kept]
      exact ih later' (kept.trans (seen.trans kept'.symm))
    | case3 walk state included after later step =>
      intro other seen
      have same := round_looks looks walk seen
      rw [step] at same
      obtain ⟨kept, later', -, step'⟩ := same
      rw [next?_of_found step']
      exact ⟨kept, rfl⟩
  exact ⟨fun state => (both state state rfl).1, fun {state other} seen => (both state other seen).2⟩

theorem gather_looks (looks : walker.source.Looks view) (items : IncludedFile → List α)
    (fuel : Nat) (count : Option Nat) (walk : Walk) :
    Looks view (gather walker items fuel count walk) := by
  induction fuel generalizing count walk with
  | zero =>
    rw [show gather walker items 0 count walk = _ from funext (gather_zero items count walk)]
    exact .answer []
  | succ fuel ih =>
    by_cases more : count = some 0
    · subst more
      exact .answer []
    · refine (next?_looks looks walk).goes_on (fun pulled state => match pulled with
        | none => ([], state)
        | some (included, walk) =>
          let found := wantedOf count (items included)
          let rest := gather walker items fuel (count.map (· - found.length)) walk state
          (found ++ rest.1, rest.2)) (fun state => ?_) fun pulled => ?_
      · rw [gather_more items fuel more]
        rcases next? walker walk state with ⟨_ | _, later⟩ <;> rfl
      · match pulled with
        | none => exact .answer []
        | some (included, walk) =>
          exact (ih _ walk).goes_on
            (fun rest state => (wantedOf count (items included) ++ rest, state)) (fun _ => rfl)
            fun _ => .answer _

end Walk

/-! ## Questions about a root file -/

namespace Walker

variable {walker : Walker σ} (looks : walker.source.Looks view) (root : TargetFile)

include looks

theorem targetsThrough_looks (edges : List IncludeEdge) (wanted : IncludedTarget → Bool)
    (count : Option Nat) : Looks view (walker.targetsThrough root edges wanted count) :=
  Walk.gather_looks looks _ walker.limit count (Walk.start root edges true [])

theorem occurrences_looks (wanted : Occurrence → Bool) (count : Option Nat) :
    Looks view (walker.occurrences root wanted count) := by
  let direct := Walk.wantedOf count ((root.targets.map Occurrence.direct).filter wanted)
  exact (targetsThrough_looks looks root root.edges (fun target => wanted (.included target))
    (count.map (· - direct.length))).goes_on
    (fun included state => (direct ++ included.map Occurrence.included, state)) (fun _ => rfl)
    fun _ => .answer _

theorem targetNamed?_looks (name : String) : Looks view (walker.targetNamed? root name) :=
  (occurrences_looks looks root (fun occurrence => occurrence.name == name) (some 1)).goes_on
    (fun found state => (found.head?, state)) (fun _ => rfl) fun _ => .answer _

theorem targetsAtLine_looks (line : Nat) : Looks view (walker.targetsAtLine root line) :=
  targetsThrough_looks looks root _ (fun _ => true) none

theorem anchorsFor_looks (edges : List IncludeEdge) :
    Looks view (walker.anchorsFor root edges) := by
  induction edges with
  | nil => exact .answer []
  | cons edge edges ih =>
    exact (targetsThrough_looks looks root [edge] (fun _ => true) none).goes_on
      (fun targets state =>
        let later := walker.anchorsFor root edges state
        (⟨root.document.lineAt edge.offset, edge.argument, targets.length⟩ :: later.1, later.2))
      (fun _ => rfl) fun targets => ih.goes_on (fun later state =>
        (⟨root.document.lineAt edge.offset, edge.argument, targets.length⟩ :: later, state))
        (fun _ => rfl) fun _ => .answer _

end Walker

/-! ## Scans -/

namespace Workspace

variable {workspace : Workspace σ}

theorem open?_looks (looks : workspace.source.Looks view) (path : Path) :
    Looks view (workspace.open? path) :=
  (looks.load (workspace.resolve path)).goes_on_ok (fun document state =>
    (TargetFile.detect document workspace.settings workspace.grammars, state))
    (fun here => by rw [open?, here]) (fun here => by rw [open?, here]) fun _ => .answer _

theorem loadAll_looks (looks : workspace.source.Looks view) (grammar : Grammar)
    (paths : List Path) : Looks view (workspace.loadAll grammar paths) := by
  induction paths with
  | nil => exact .answer []
  | cons path paths ih =>
    refine (looks.load path).goes_on (fun answer state => match answer with
      | .error cause =>
        workspace.loadAll grammar paths (workspace.source.note (.fileNotLoaded path cause) state)
      | .ok document =>
        let rest := workspace.loadAll grammar paths state
        (⟨workspace.label path, ⟨document, grammar⟩⟩ :: rest.1, rest.2))
      (fun state => ?_) fun answer => ?_
    · rw [loadAll]
      rcases workspace.source.load path state with ⟨_ | document, later⟩ <;> rfl
    · cases answer with
      | error cause =>
        exact ⟨fun state => (ih.kept _).trans (looks.note _ _), fun {state other} seen =>
          ih.same ((looks.note _ _).trans (seen.trans (looks.note _ _).symm))⟩
      | ok document =>
        exact ih.goes_on (fun files state =>
          (⟨workspace.label path, ⟨document, grammar⟩⟩ :: files, state)) (fun _ => rfl)
          fun _ => .answer _

theorem targetFiles_looks (looks : workspace.source.Looks view) (runner : String)
    (active : Option Path) : Looks view (workspace.targetFiles runner active) := by
  unfold targetFiles
  split
  · exact .answer _
  · exact .answer _
  · next settings grammar _ _ =>
    have find := looks.find workspace.root settings.workspacePatterns
      workspace.settings.excludedFolders
    have loaded : ∀ paths, Looks view fun state =>
        let loaded := workspace.loadAll grammar paths state
        ((.ok ⟨loaded.1, if loaded.1.isEmpty then [.noFilesFound runner] else []⟩ :
          Except Fault (Scan WorkspaceFile)), loaded.2) :=
      fun paths => (loadAll_looks looks grammar paths).goes_on (fun files state =>
        (.ok ⟨files, if files.isEmpty then [.noFilesFound runner] else []⟩, state)) (fun _ => rfl)
        fun _ => .answer _
    cases active with
    | none => exact find.goes_on_ok _ (fun here => by rw [here]) (fun here => by rw [here]) loaded
    | some path =>
      exact find.goes_on_ok _ (fun here => by rw [here]) (fun here => by rw [here]) fun paths =>
        loaded (activeFirst (workspace.resolve path) paths)

theorem targetsOf_looks (looks : workspace.source.Looks view) (entries : List WorkspaceFile) :
    Looks view (workspace.targetsOf entries) := by
  induction entries with
  | nil => exact .answer []
  | cons entry entries ih =>
    have first : Looks view (workspace.walker.allTargets entry.file) :=
      Walker.occurrences_looks looks entry.file (fun _ => true) none
    exact first.goes_on (fun targets state =>
      let rest := workspace.targetsOf entries state
      (⟨entry, targets⟩ :: rest.1, rest.2)) (fun _ => rfl)
      fun targets => ih.goes_on (fun later state => (⟨entry, targets⟩ :: later, state))
        (fun _ => rfl) fun _ => .answer _

/-- **What a scan for targets answers depends on what the source looks at.** -/
theorem allTargets_looks (looks : workspace.source.Looks view) (runner : String)
    (active : Option Path) : Looks view (workspace.allTargets runner active) := by
  refine (targetFiles_looks looks runner active).goes_on_ok (fun files state =>
    let found := workspace.targetsOf files.items state
    (.ok ⟨found.1, files.notices ++ (found.1.filter fun item => item.targets.isEmpty).map
      fun item => .noTargetsFound item.entry.file.path⟩, found.2))
    (fun here => by rw [allTargets, here]) (fun here => by rw [allTargets, here]) fun files => ?_
  exact (targetsOf_looks looks files.items).goes_on (fun items state =>
    (.ok ⟨items, files.notices ++ (items.filter fun item => item.targets.isEmpty).map
      fun item => .noTargetsFound item.entry.file.path⟩, state))
    (fun _ => rfl) fun _ => .answer _

end Workspace

end BuildTargets
