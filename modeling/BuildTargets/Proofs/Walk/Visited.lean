import BuildTargets.Proofs.Walk.Traversal
import Mathlib.Data.List.Count

/-!
# Visited paths

Every path is written down as visited before it is loaded. So a walk loads no two paths of the same
normal form, and none that counted as entered from the start; and if the paths that searches find
have finitely many normal forms, it ends: a round either enters one more of them or leaves less
work on the files under way.
-/

namespace BuildTargets

/-- The paths that a source was asked to load, in order. -/
def loads (asked : List Question) : List Path :=
  asked.filterMap fun
    | .find .. => none
    | .load path => some path

@[simp] theorem loads_append_find (asked : List Question) (base : Path)
    (patterns excludes : List String) :
    loads (asked ++ [.find base patterns excludes]) = loads asked := by
  simp [loads]

@[simp] theorem loads_append_load (asked : List Question) (path : Path) :
    loads (asked ++ [.load path]) = loads asked ++ [path] := by
  simp [loads]

namespace Walk

variable {σ : Type} {walker : Walker σ}

/-! ## Paths that are loaded -/

/-- The paths asked for are visited on top of `initial`, and were not visited when asked for. -/
structure LoadsOnce (initial visited : List Path) (asked : List Question) : Prop where
  visited_eq : visited = ((loads asked).map Path.normalize).reverse ++ initial
  distinct : (loads asked).Pairwise fun p q => p.normalize.same q.normalize = false
  fresh : ∀ p ∈ loads asked, ∀ v ∈ initial, p.normalize.same v = false

theorem LoadsOnce.find {initial visited : List Path} {asked : List Question}
    (h : LoadsOnce initial visited asked) (base : Path) (patterns excludes : List String) :
    LoadsOnce initial visited (asked ++ [.find base patterns excludes]) where
  visited_eq := by simpa using h.visited_eq
  distinct := by simpa using h.distinct
  fresh := by simpa using h.fresh

theorem LoadsOnce.load {initial visited : List Path} {asked : List Question} {path : Path}
    (h : LoadsOnce initial visited asked) (new : visited.any path.normalize.same = false) :
    LoadsOnce initial (path.normalize :: visited) (asked ++ [.load path]) where
  visited_eq := by simp [h.visited_eq]
  distinct := by
    simp only [h.visited_eq, List.any_append, List.any_reverse, List.any_map, Bool.or_eq_false_iff,
      List.any_eq_false, Function.comp_apply] at new
    rw [loads_append_load, List.pairwise_append]
    refine ⟨h.distinct, List.pairwise_singleton _ _, fun p hp q hq => ?_⟩
    obtain rfl := List.mem_singleton.1 hq
    rw [Path.same_comm]
    simpa using new.1 p hp
  fresh := by
    intro p hp v hv
    rw [loads_append_load, List.mem_append, List.mem_singleton] at hp
    rcases hp with hp | rfl
    · exact h.fresh p hp v hv
    · simp only [h.visited_eq, List.any_append, Bool.or_eq_false_iff, List.any_eq_false] at new
      simpa using new.2 v hv

theorem loadsOnce_invariant (walker : Walker σ) (initial : List Path) :
    Invariant walker.recorded fun walk state => LoadsOnce initial walk.visited state.2 where
  again := by
    intro walk after state later h once
    cases h with
    | visited => exact once
    | @notLoaded _ _ _ _ _ path _ _ _ _ later _ new load =>
      obtain rfl : later = (walker.recorded.source.load path state).2 := by rw [load]
      exact once.load new
    | @searched _ _ file _ edge _ _ _ _ _ _ find =>
      obtain rfl : later = (walker.recorded.source.find file.directory [edge.argument]
        walker.recorded.excludes state).2 := by rw [find]
      exact once.find file.directory [edge.argument] walker.excludes
    | @notSearched _ _ file _ edge _ _ _ _ _ later find =>
      obtain rfl : later = (walker.recorded.source.find file.directory [edge.argument]
        walker.recorded.excludes state).2 := by rw [find]
      exact once.find file.directory [edge.argument] walker.excludes
    | done => exact once
  found := by
    intro walk after state later included h once
    cases h with
    | @loaded _ _ _ _ _ path _ _ _ _ _ _ new load =>
      obtain rfl : later = (walker.recorded.source.load path state).2 := by rw [load]
      exact once.load new

/-! ## Paths that are pending -/

def FindsOnly (walker : Walker σ) (P : Path → Prop) : Prop :=
  ∀ base patterns excludes state paths later,
    walker.source.find base patterns excludes state = (.ok paths, later) → ∀ path ∈ paths, P path

def PendingOnly (P : Path → Prop) (walk : Walk) : Prop :=
  ∀ frame ∈ walk.stack, ∀ path ∈ frame.pending, P path

theorem pendingOnly_cons {P : Path → Prop} {recursive : Bool} {visited : List Path} {frame : Frame}
    {below : List Frame} :
    PendingOnly P ⟨recursive, visited, frame :: below⟩ ↔
      (∀ path ∈ frame.pending, P path) ∧ PendingOnly P ⟨recursive, visited, below⟩ :=
  List.forall_mem_cons

theorem pendingOnly_invariant {P : Path → Prop} (finds : FindsOnly walker P) :
    Invariant walker fun walk _ => walk.PendingOnly P where
  again := by
    intro walk after state later h only
    cases h with
    | visited | notLoaded =>
      obtain ⟨top, below⟩ := pendingOnly_cons.1 only
      exact pendingOnly_cons.2 ⟨fun path mem => top path (List.mem_cons_of_mem _ mem), below⟩
    | searched find =>
      exact pendingOnly_cons.2 ⟨finds _ _ _ _ _ _ find, (pendingOnly_cons.1 only).2⟩
    | notSearched => exact pendingOnly_cons.2 ⟨by simp, (pendingOnly_cons.1 only).2⟩
    | done => exact (pendingOnly_cons.1 only).2
  found := by
    intro walk after state later included h only
    cases h with
    | @loaded recursive =>
      obtain ⟨top, below⟩ := pendingOnly_cons.1 only
      have top := fun path mem => top path (List.mem_cons_of_mem _ mem)
      cases recursive with
      | false => exact pendingOnly_cons.2 ⟨top, below⟩
      | true => exact pendingOnly_cons.2 ⟨by simp, pendingOnly_cons.2 ⟨top, below⟩⟩

/-! ## Finitely many paths -/

def unvisited (known visited : List Path) : Nat :=
  known.countP fun path => !visited.any path.same

theorem unvisited_cons_le (known visited : List Path) (path : Path) :
    unvisited known (path :: visited) ≤ unvisited known visited := by
  apply List.countP_mono_left
  intro u _ h
  rw [List.any_cons, Bool.not_or, Bool.and_eq_true] at h
  exact h.2

theorem unvisited_cons_lt {known visited : List Path} {path : Path}
    (new : visited.any path.same = false) (mem : ∃ u ∈ known, u.same path = true) :
    unvisited known (path :: visited) < unvisited known visited := by
  obtain ⟨u, hu, same⟩ := mem
  have hnew : visited.any u.same = false := by
    rw [List.any_eq_false] at new ⊢
    intro v hv
    have := new v hv
    rwa [Path.same_iff, ← Path.same_iff.1 same, ← Path.same_iff] at this
  unfold unvisited
  simp only [List.any_cons, Bool.not_or]
  rw [← List.countP_filter, List.countP_eq_length_filter (l := known), List.countP_lt_length_iff]
  exact ⟨u, List.mem_filter.2 ⟨hu, by rw [hnew]; rfl⟩, by rw [same]; rfl⟩

theorem Again.unvisited_le {known : List Path} {walk after : Walk} {state later : σ}
    (h : Again walker walk state after later) :
    unvisited known after.visited ≤ unvisited known walk.visited := by
  cases h with
  | notLoaded => exact unvisited_cons_le known _ _
  | _ => exact Nat.le_refl _

/-- The path has its normal form among the known ones. -/
def Known (known : List Path) (path : Path) : Prop := ∃ u ∈ known, u.same path.normalize = true

theorem Found.unvisited_lt {known : List Path} {walk after : Walk} {state later : σ}
    {included : IncludedFile} (h : Found walker walk state included after later)
    (only : walk.PendingOnly (Known known)) :
    unvisited known after.visited < unvisited known walk.visited := by
  cases h with
  | loaded new =>
    exact unvisited_cons_lt new ((pendingOnly_cons.1 only).1 _ List.mem_cons_self)

/-- A walk whose searches find no paths but known ones ends: a file takes an unvisited path away,
and the rounds between two files take work away. -/
theorem ends_of_findsOnly {known : List Path} (finds : FindsOnly walker (Known known)) (walk : Walk)
    (state : σ) (only : walk.PendingOnly (Known known)) :
    ∃ files final, Ends walker walk state files final ∧
      files.length ≤ unvisited known walk.visited := by
  match h : round walker walk state with
  | .ended => exact ⟨[], state, .ended h, Nat.zero_le _⟩
  | .again after later =>
    have step := again_of_round h
    obtain ⟨files, final, ends, le⟩ :=
      ends_of_findsOnly finds after later ((pendingOnly_invariant finds).again step only)
    exact ⟨files, final, .again h ends, Nat.le_trans le step.unvisited_le⟩
  | .found included after later =>
    have step := found_of_round h
    obtain ⟨files, final, ends, le⟩ :=
      ends_of_findsOnly finds after later ((pendingOnly_invariant finds).found step only)
    exact ⟨included :: files, final, .found h ends, Nat.lt_of_le_of_lt le (step.unvisited_lt only)⟩
termination_by (unvisited known walk.visited, walk.work)
decreasing_by
  · exact Prod.Lex.right' _ step.unvisited_le step.work_lt
  · exact .left _ _ (step.unvisited_lt only)

end Walk

/-! ## Entering every file at most once -/

variable {σ : Type}

/-- **No path is loaded twice, and finitely many paths are walked in finitely many rounds.** However
many files are pulled out of a walk, the paths that its source was asked to load have different
normal forms, and none that is the root's or counted as entered from the start. If the paths that
searches find have their normal forms among some known paths, the walk ends, whatever it loads, with
no more files than there are known paths, and no more can be pulled out of it. -/
theorem loads_distinct_and_walk_ends (walker : Walker σ) (root : TargetFile)
    (edges : List IncludeEdge) (recursive : Bool) (visited : List Path) (state : σ) :
    let walk := Walk.start root edges recursive visited
    (∀ demand,
      let asked := loads (Walk.gather walker.recorded (fun included => [included]) demand none walk
        (state, [])).2.2
      (asked.Pairwise fun p q => p.normalize.same q.normalize = false) ∧
      ∀ p ∈ asked, p.normalize.same root.path.normalize = false ∧
        ∀ v ∈ visited, p.normalize.same v = false) ∧
    ∀ known, Walk.FindsOnly walker (Walk.Known known) →
      ∃ files final, Walk.Ends walker walk state files final ∧ files.length ≤ known.length ∧
        ∀ demand, (Walk.gather walker (fun included => [included]) demand none walk state).1 =
          files.take demand := by
  refine ⟨fun demand => ?_, fun known finds => ?_⟩
  · have start : Walk.LoadsOnce (root.path.normalize :: visited)
        (Walk.start root edges recursive visited).visited ((state, []) : σ × List Question).2 :=
      ⟨rfl, .nil, by simp [loads]⟩
    obtain ⟨after, once⟩ := (Walk.loadsOnce_invariant walker _).gather
      (fun included => [included]) demand start
    exact ⟨once.distinct, fun p hp => List.forall_mem_cons.1 (once.fresh p hp)⟩
  · obtain ⟨files, final, ends, le⟩ := Walk.ends_of_findsOnly finds
      (Walk.start root edges recursive visited) state (by simp [Walk.PendingOnly, Walk.start])
    exact ⟨files, final, ends, Nat.le_trans le List.countP_le_length, ends.pulled_eq⟩

def selfIncluding : Source Unit where
  find _ _ _ state := (.ok [⟨"a"⟩], state)
  load path state := (.ok ⟨path, "include a\na:\n"⟩, state)
  note _ state := state

theorem self_including_walk_ends :
    Walk.FindsOnly ⟨selfIncluding, [], 1⟩ (Walk.Known [⟨"a"⟩]) ∧
      ∃ files final, Walk.Ends ⟨selfIncluding, [], 1⟩
        (Walk.start ⟨⟨⟨"b"⟩, "include a\n"⟩, .make⟩ [⟨0, "a"⟩] true []) () files final ∧
          files.length ≤ 1 := by
  have finds : Walk.FindsOnly ⟨selfIncluding, [], 1⟩ (Walk.Known [⟨"a"⟩]) := by
    intro base patterns excludes state paths later find path mem
    cases find
    obtain rfl := List.mem_singleton.1 mem
    exact ⟨⟨"a"⟩, List.mem_cons_self, by decide⟩
  obtain ⟨files, final, ends, le, -⟩ :=
    (loads_distinct_and_walk_ends _ _ _ _ _ _).2 [⟨"a"⟩] finds
  exact ⟨finds, files, final, ends, le⟩

end BuildTargets
