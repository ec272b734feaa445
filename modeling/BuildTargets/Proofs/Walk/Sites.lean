import BuildTargets.Proofs.Walk.Reach

/-!
# Which directive brings a file in

A recursive walk goes down before it goes on: when it gets back to the root, all that the files
entered so far lead to has been visited. So a directive of the root brings a file in itself, not
through a file in between, only if nothing that was found before the file leads there. Then it
also brings the file in itself where it is the only directive that is followed.
-/

namespace BuildTargets

/-- The file does not have the path of the root. -/
def TargetFile.Apart (file root : TargetFile) : Prop :=
  file.path.normalize.same root.path.normalize = false

/-- The file that a walk from the root enters at `via` leads to the path. -/
def Answers.Expands (answers : Answers) (excludes : List String) (root : TargetFile)
    (via path : Path) : Prop :=
  ∃ document, answers.Enters root [] via document ∧
    answers.LeadsTo excludes ⟨document, root.grammar⟩ (TargetFile.edges ⟨document, root.grammar⟩)
      path

/-- What the files entered at known paths `inside` lead to is inside, too. -/
def Answers.Closed (answers : Answers) (excludes : List String) (known : List Path)
    (root : TargetFile) (inside : Path → Prop) : Prop :=
  ∀ via ∈ known, inside via → ∀ path, answers.Expands excludes root via path → inside path

namespace Walk

variable {σ : Type} {walker : Walker σ} {answers : Answers} {known : List Path} {root : TargetFile}
  {edges : List IncludeEdge} {walk after : Walk} {state later : σ} {included : IncludedFile}

theorem Again.keeps_visited (h : Again walker walk state after later) {path : Path}
    (old : walk.hasVisited path = true) : after.hasVisited path = true := by
  cases h with
  | notLoaded => exact (hasVisited_cons ..).trans (by rw [old, Bool.or_true])
  | _ => exact old

theorem Found.keeps_visited (h : Found walker walk state included after later) {path : Path}
    (old : walk.hasVisited path = true) : after.hasVisited path = true := by
  cases h
  exact (hasVisited_cons ..).trans (by rw [old, Bool.or_true])

/-- What a recursive round with a file does to the files under way: the innermost one goes on, and
the file found comes on top of it. -/
theorem Found.frames (answers : Answers) (h : Found walker walk state included after later)
    (recursive : walk.recursive = true) :
    ∃ top below next inner, walk.stack = top :: below ∧ after.stack = inner :: next :: below ∧
      next.file = top.file ∧ (inner.file = included.file ∧ inner.edges = included.file.edges) ∧
      ∀ path, top.Offers answers walker.excludes path →
        next.Offers answers walker.excludes path ∨ after.hasVisited path = true := by
  cases h
  obtain rfl := recursive
  refine ⟨_, _, _, _, rfl, rfl, rfl, ⟨rfl, rfl⟩, ?_⟩
  rintro other (mem | leads)
  · rcases List.mem_cons.1 mem with rfl | mem
    · exact .inr (hasVisited_self _ _ _ _)
    · exact .inl (.inl mem)
  · exact .inl (.inr leads)

/-! ## Going down before going on -/

/-- Only the innermost file under way may be the root. -/
def Layered (root : TargetFile) : List Frame → Prop
  | [] => True
  | frame :: below => (below ≠ [] → frame.file.Apart root) ∧ Layered root below

/-- What the files entered lead to has been visited, or a file under way other than the root has it
on offer. -/
def Covers (answers : Answers) (excludes : List String) (known : List Path) (root : TargetFile)
    (walk : Walk) : Prop :=
  ∀ via ∈ known, walk.hasVisited via = true → ∀ path, answers.Expands excludes root via path →
    walk.hasVisited path = true ∨
      ∃ frame ∈ walk.stack, frame.file.Apart root ∧ frame.Offers answers excludes path

theorem Again.covers (steady : walker.source.Steady answers known)
    (h : Again walker walk state after later) (only : walk.PendingOnly (· ∈ known))
    (covers : walk.Covers answers walker.excludes known root) :
    after.Covers answers walker.excludes known root := by
  intro via mem entered path expands
  have before : walk.hasVisited via = true := by
    obtain ⟨document, enters, -⟩ := expands
    rw [← Bool.not_eq_false]
    intro new
    rw [h.unvisited steady only mem enters.load new] at entered
    cases entered
  rcases covers via mem before path expands with old | ⟨frame, held, apart, offers⟩
  · exact .inl (h.keeps_visited old)
  · obtain ⟨top, below, stack, step⟩ := h.frames steady
    rw [stack] at held
    rcases step with ⟨same, empty⟩ | ⟨next, same, file, -, keeps⟩
    · rcases List.mem_cons.1 held with rfl | held
      · exact absurd offers (empty path)
      · exact .inr ⟨frame, same ▸ held, apart, offers⟩
    · rcases List.mem_cons.1 held with rfl | held
      · rcases keeps path offers with offers | old
        · exact .inr ⟨next, same ▸ List.mem_cons_self, by rwa [file], offers⟩
        · exact .inl old
      · exact .inr ⟨frame, same ▸ List.mem_cons_of_mem next held, apart, offers⟩

theorem Found.apart (steady : walker.source.Steady answers known)
    (h : Found walker walk state included after later) (only : walk.PendingOnly (· ∈ known))
    (entered : root.path.normalize ∈ walk.visited) : included.file.Apart root := by
  have new := (h.visits steady only).1
  rw [hasVisited, List.any_eq_false] at new
  exact Bool.eq_false_iff.2 (new _ entered)

theorem Found.covers (steady : walker.source.Steady answers known)
    (h : Found walker walk state included after later) (recursive : walk.recursive = true)
    (only : walk.PendingOnly (· ∈ known))
    (traces : walk.Traces answers walker.excludes root edges [])
    (covers : walk.Covers answers walker.excludes known root) :
    after.Covers answers walker.excludes known root := by
  intro via mem entered path expands
  have arrives := h.arrives steady only traces
  have apart := h.apart steady only (traces.entered _ List.mem_cons_self)
  obtain ⟨top, below, next, inner, stack, same, file, fresh, keeps⟩ := h.frames answers recursive
  rw [same]
  by_cases before : walk.hasVisited via = true
  · rcases covers via mem before path expands with old | ⟨frame, held, apart', offers⟩
    · exact .inl (h.keeps_visited old)
    · rw [stack] at held
      rcases List.mem_cons.1 held with rfl | held
      · rcases keeps path offers with offers | old
        · have mem' := List.mem_cons_of_mem inner (List.mem_cons_self (a := next) (l := below))
          exact .inr ⟨next, mem', by rwa [file], offers⟩
        · exact .inl old
      · have mem' := List.mem_cons_of_mem inner (List.mem_cons_of_mem next held)
        exact .inr ⟨frame, mem', apart', offers⟩
  · -- Only now the path was entered, so it is that of the file found.
    rw [Bool.not_eq_true] at before
    have here : included.file.path = via := by
      rcases h.unvisited steady only mem before with here | new
      · exact here
      · cases new.symm.trans entered
    subst here
    obtain ⟨document, enters, leads⟩ := expands
    obtain rfl : document = included.file.document :=
      Except.ok.inj (enters.load.symm.trans arrives.enters.load)
    rw [← arrives.grammar] at leads
    exact .inr ⟨inner, List.mem_cons_self, by rwa [fresh.1], .inr (by rwa [fresh.1, fresh.2])⟩

/-- The root under way: its pending paths are the last of those that one of its directives leads to,
and the others have been visited. -/
structure Serves (answers : Answers) (excludes : List String) (root : TargetFile)
    (edges : List IncludeEdge) (visited : Path → Prop) (frame : Frame) : Prop where
  file : frame.file = root
  left : frame.edges ⊆ edges
  pending : frame.pending = [] ∨ ∃ edge ∈ edges, frame.siteOffset = edge.offset ∧ ∃ before,
    answers.find root.directory [edge.argument] excludes = .ok (before ++ frame.pending) ∧
      ∀ path ∈ before, visited path

theorem Serves.mono {excludes : List String} {visited visited' : Path → Prop} {frame : Frame}
    (h : Serves answers excludes root edges visited frame)
    (sub : ∀ path, visited path → visited' path) :
    Serves answers excludes root edges visited' frame where
  file := h.file
  left := h.left
  pending := h.pending.imp_right fun ⟨edge, mem, offset, before, find, old⟩ =>
    ⟨edge, mem, offset, before, find, fun path held => sub path (old path held)⟩

/-- The root goes on behind a path once this is visited. -/
theorem Serves.tail {excludes : List String} {visited : Path → Prop} {file : TargetFile}
    {depth offset : Nat} {left : List IncludeEdge} {path : Path} {pending : List Path}
    (h : Serves answers excludes root edges visited ⟨file, depth, left, path :: pending, offset⟩)
    (entered : visited path) :
    Serves answers excludes root edges visited ⟨file, depth, left, pending, offset⟩ where
  file := h.file
  left := h.left
  pending := by
    rcases h.pending with none | ⟨edge, mem, at_edge, before, find, old⟩
    · cases none
    · refine .inr ⟨edge, mem, at_edge, before ++ [path], ?_, ?_⟩
      · rw [find, List.append_assoc]
        rfl
      · exact List.forall_mem_append.2 ⟨old, List.forall_mem_singleton.2 entered⟩

/-- Where a recursive walk stands when it goes through some directives of the root. -/
structure Ordered (answers : Answers) (excludes : List String) (known : List Path)
    (root : TargetFile) (edges : List IncludeEdge) (walk : Walk) : Prop where
  recursive : walk.recursive = true
  only : walk.PendingOnly (· ∈ known)
  traces : walk.Traces answers excludes root edges []
  covers : walk.Covers answers excludes known root
  layered : Layered root walk.stack
  frames : ∀ frame ∈ walk.stack, frame.file.Apart root ∨
    Serves answers excludes root edges (fun path => walk.hasVisited path = true) frame

theorem Again.layered (steady : walker.source.Steady answers known)
    (h : Again walker walk state after later) (layered : Layered root walk.stack) :
    Layered root after.stack := by
  obtain ⟨top, below, stack, step⟩ := h.frames steady
  rw [stack] at layered
  rcases step with ⟨same, -⟩ | ⟨next, same, file, -⟩
  · rw [same]
    exact layered.2
  · rw [same]
    exact ⟨by rw [file]; exact layered.1, layered.2⟩

theorem Again.serves (steady : walker.source.Steady answers known)
    (h : Again walker walk state after later)
    (frames : ∀ frame ∈ walk.stack, frame.file.Apart root ∨
      Serves answers walker.excludes root edges (fun path => walk.hasVisited path = true) frame) :
    ∀ frame ∈ after.stack, frame.file.Apart root ∨ Serves answers walker.excludes root edges
      (fun path => after.hasVisited path = true) frame := by
  have older : ∀ frame ∈ walk.stack, frame.file.Apart root ∨ Serves answers walker.excludes root
      edges (fun path => after.hasVisited path = true) frame := fun frame mem =>
    (frames frame mem).imp_right fun serves => serves.mono fun _ => h.keeps_visited
  cases h with
  | visited old =>
    obtain ⟨top, below⟩ := List.forall_mem_cons.1 older
    exact List.forall_mem_cons.2 ⟨top.imp_right fun serves => serves.tail old, below⟩
  | notLoaded =>
    obtain ⟨top, below⟩ := List.forall_mem_cons.1 older
    exact List.forall_mem_cons.2
      ⟨top.imp_right fun serves => serves.tail (hasVisited_self _ _ _ _), below⟩
  | searched find =>
    obtain ⟨top, below⟩ := List.forall_mem_cons.1 older
    refine List.forall_mem_cons.2 ⟨top.imp_right fun serves => ?_, below⟩
    obtain ⟨rfl, sub, -⟩ := serves
    exact ⟨rfl, fun _ mem => sub (List.mem_cons_of_mem _ mem),
      .inr ⟨_, sub List.mem_cons_self, rfl, [], steady.find_of find, List.forall_mem_nil _⟩⟩
  | notSearched =>
    obtain ⟨top, below⟩ := List.forall_mem_cons.1 older
    refine List.forall_mem_cons.2 ⟨top.imp_right fun serves => ?_, below⟩
    exact ⟨serves.file, fun _ mem => serves.left (List.mem_cons_of_mem _ mem), .inl rfl⟩
  | done => exact (List.forall_mem_cons.1 older).2

theorem Ordered.again (steady : walker.source.Steady answers known)
    (h : Again walker walk state after later)
    (ordered : walk.Ordered answers walker.excludes known root edges) :
    after.Ordered answers walker.excludes known root edges where
  recursive := (recursive_invariant walker).again h ordered.recursive
  only := (known_invariant steady).again h ordered.only
  traces := ordered.traces.again steady h
  covers := h.covers steady ordered.only ordered.covers
  layered := h.layered steady ordered.layered
  frames := h.serves steady ordered.frames

theorem Ordered.found (steady : walker.source.Steady answers known)
    (h : Found walker walk state included after later)
    (ordered : walk.Ordered answers walker.excludes known root edges) :
    after.Ordered answers walker.excludes known root edges where
  recursive := (recursive_invariant walker).found h ordered.recursive
  only := (known_invariant steady).found h ordered.only
  traces := ordered.traces.found steady h ordered.only
  covers := h.covers steady ordered.recursive ordered.only ordered.traces ordered.covers
  layered := by
    have apart := h.apart steady ordered.only (ordered.traces.entered _ List.mem_cons_self)
    obtain ⟨top, below, next, inner, stack, same, file, fresh, -⟩ :=
      h.frames answers ordered.recursive
    have layered := ordered.layered
    rw [stack] at layered
    rw [same]
    exact ⟨fun _ => by rwa [fresh.1], by rw [file]; exact layered.1, layered.2⟩
  frames := by
    have apart := h.apart steady ordered.only (ordered.traces.entered _ List.mem_cons_self)
    have older : ∀ frame ∈ walk.stack, frame.file.Apart root ∨ Serves answers walker.excludes root
        edges (fun path => after.hasVisited path = true) frame := fun frame mem =>
      (ordered.frames frame mem).imp_right fun serves => serves.mono fun _ => h.keeps_visited
    have recursive := ordered.recursive
    cases h
    obtain rfl := recursive
    obtain ⟨top, below⟩ := List.forall_mem_cons.1 older
    refine List.forall_mem_cons.2 ⟨.inl apart, List.forall_mem_cons.2 ⟨?_, below⟩⟩
    exact top.imp_right fun serves => serves.tail (hasVisited_self _ _ _ _)

/-- A file that a directive of the root brings in itself: nothing that the directive leads to before
it leads to it in turn. -/
def BroughtIn (answers : Answers) (excludes : List String) (known : List Path) (root : TargetFile)
    (edges : List IncludeEdge) (included : IncludedFile) : Prop :=
  ∃ edge ∈ edges, included.site = ⟨root.document, edge.offset⟩ ∧ ∃ before behind inside,
    answers.find root.directory [edge.argument] excludes =
        .ok (before ++ included.file.path :: behind) ∧
      (∀ path ∈ before, inside path) ∧ answers.Closed excludes known root inside ∧
      ¬ inside included.file.path

theorem ordered_invariant (steady : walker.source.Steady answers known) :
    Invariant walker fun walk _ =>
      walk.Ordered answers walker.excludes known root edges where
  again h ordered := ordered.again steady h
  found h ordered := ordered.found steady h

theorem ordered_start (steady : walker.source.Steady answers known) :
    (start root edges true []).Ordered answers walker.excludes known root edges where
  recursive := rfl
  only := pendingOnly_start
  traces := traces_start
  covers := by
    rintro via mem entered path ⟨document, enters, -⟩
    rw [hasVisited_start (steady.normal via mem) enters] at entered
    cases entered
  layered := ⟨fun ne => absurd rfl ne, trivial⟩
  frames := List.forall_mem_singleton.2 (.inr ⟨rfl, fun _ mem => mem, .inl rfl⟩)

/-- A file whose directive stands in the root is brought in by that directive itself. -/
theorem Ordered.broughtIn (steady : walker.source.Steady answers known)
    (h : Found walker walk state included after later)
    (ordered : walk.Ordered answers walker.excludes known root edges)
    (site : included.site.document.path.same root.path = true) :
    BroughtIn answers walker.excludes known root edges included := by
  have new := (h.visits steady ordered.only).1
  obtain ⟨-, only, -, covers, layered, frames⟩ := ordered
  cases h with
  | @loaded _ _ file _ _ path pending _ below _ document _ _ load =>
    have mem := (pendingOnly_cons.1 only).1 path List.mem_cons_self
    obtain rfl : document.path = path := steady.path_eq path mem document (steady.load_of load)
    have met : ¬ file.Apart root := by
      intro apart
      have same : file.path.normalize = root.path.normalize := Path.normalize_congr site
      rw [TargetFile.Apart, same, Path.same_iff.2 rfl] at apart
      cases apart
    obtain rfl : below = [] := Decidable.byContradiction fun ne => met (layered.1 ne)
    have serves := (List.forall_mem_singleton.1 frames).resolve_left met
    obtain rfl : file = root := serves.file
    rcases serves.pending with none | ⟨edge, mem, offset, before, find, old⟩
    · cases none
    · refine ⟨edge, mem, congrArg _ offset, before, pending, _, find, old, ?_, ?_⟩
      · intro via mem inside other expands
        rcases covers via mem inside other expands with old | ⟨frame, held, apart, -⟩
        · exact old
        · rw [List.mem_singleton.1 held] at apart
          exact absurd apart met
      · exact Bool.eq_false_iff.1 new

theorem Ends.broughtIn (steady : walker.source.Steady answers known) {final : σ}
    {files : List IncludedFile} (h : Ends walker (start root edges true []) state files final)
    (mem : included ∈ files) (site : included.site.document.path.same root.path = true) :
    BroughtIn answers walker.excludes known root edges included := by
  have pulled := h.pulled_eq files.length
  rw [List.take_length] at pulled
  rw [← pulled] at mem
  obtain ⟨other, gives, held⟩ := (ordered_invariant steady).mem_gather
    (fun step ordered => fun site => ordered.broughtIn steady step site) (ordered_start steady) mem
  obtain rfl := List.mem_singleton.1 held
  exact gives site

/-! ## Following one directive only -/

section

variable {inside : Path → Prop} {path : Path} {offset : Nat}

/-- The root under way, with the path pending behind paths that are `inside`. -/
structure Waits (inside : Path → Prop) (root : TargetFile) (offset : Nat) (path : Path)
    (frame : Frame) : Prop where
  file : frame.file = root
  site : frame.siteOffset = offset
  pending : ∃ before behind, frame.pending = before ++ path :: behind ∧
    ∀ other ∈ before, inside other

/-- The root waits with the path pending, which has not been visited, and all that is on offer
otherwise is `inside`. -/
structure Nears (answers : Answers) (excludes : List String) (inside : Path → Prop)
    (root : TargetFile) (offset : Nat) (path : Path) (walk : Walk) : Prop where
  new : walk.hasVisited path = false
  waits : ∃ frame ∈ walk.stack, Waits inside root offset path frame
  frames : ∀ frame ∈ walk.stack, Waits inside root offset path frame ∨
    ∀ other, frame.Offers answers excludes other → inside other

/-- The first pending path is the one waited for, or the root still waits behind it. -/
theorem Waits.tail {file : TargetFile} {depth site : Nat} {left : List IncludeEdge} {first : Path}
    {pending : List Path}
    (h : Waits inside root offset path ⟨file, depth, left, first :: pending, site⟩) :
    first = path ∨
      inside first ∧ Waits inside root offset path ⟨file, depth, left, pending, site⟩ := by
  obtain ⟨file_eq, site_eq, before, behind, split, held⟩ := h
  cases before with
  | nil => exact .inl (List.cons.inj split).1
  | cons other before =>
    obtain ⟨rfl, later⟩ := List.cons.inj split
    obtain ⟨first, rest⟩ := List.forall_mem_cons.1 held
    exact .inr ⟨first, file_eq, site_eq, before, behind, later, rest⟩

theorem not_waits_nil {file : TargetFile} {depth site : Nat} {left : List IncludeEdge} :
    ¬ Waits inside root offset path ⟨file, depth, left, [], site⟩ := by
  rintro ⟨-, -, before, behind, split, -⟩
  cases before <;> cases split

theorem Waits.offers {excludes : List String} {frame : Frame}
    (h : Waits inside root offset path frame) : frame.Offers answers excludes path := by
  obtain ⟨before, behind, split, -⟩ := h.pending
  refine .inl ?_
  rw [split]
  exact List.mem_append_right _ List.mem_cons_self

/-- The innermost file goes on: it still waits if it did, and offers nothing new. -/
theorem Nears.go_on {excludes : List String} {top next : Frame} {below : List Frame}
    (h : walk.Nears answers excludes inside root offset path) (stack : walk.stack = top :: below)
    (same : after.stack = next :: below) (new : after.hasVisited path = false)
    (waits : Waits inside root offset path top → Waits inside root offset path next)
    (offers : ∀ other, next.Offers answers excludes other → top.Offers answers excludes other) :
    after.Nears answers excludes inside root offset path where
  new := new
  waits := by
    obtain ⟨frame, mem, held⟩ := h.waits
    rw [stack] at mem
    rw [same]
    rcases List.mem_cons.1 mem with rfl | mem
    · exact ⟨next, List.mem_cons_self, waits held⟩
    · exact ⟨frame, List.mem_cons_of_mem next mem, held⟩
  frames := by
    have frames := h.frames
    rw [stack] at frames
    rw [same]
    obtain ⟨first, rest⟩ := List.forall_mem_cons.1 frames
    exact List.forall_mem_cons.2
      ⟨first.imp waits fun held other offered => held other (offers other offered), rest⟩

/-- One more file under way that only has on offer what is `inside`. -/
theorem Nears.push {excludes : List String} {recursive : Bool} {visited : List Path}
    {frame : Frame} {stack : List Frame}
    (h : Nears answers excludes inside root offset path ⟨recursive, visited, stack⟩)
    (held : ∀ other, frame.Offers answers excludes other → inside other) :
    Nears answers excludes inside root offset path ⟨recursive, visited, frame :: stack⟩ where
  new := h.new
  waits := h.waits.imp fun _ => .imp_left (List.mem_cons_of_mem frame)
  frames := List.forall_mem_cons.2 ⟨.inr held, h.frames⟩

theorem Again.nears (steady : walker.source.Steady answers known)
    (h : Again walker walk state after later) (only : walk.PendingOnly (· ∈ known))
    (mem : path ∈ known) {document : Document} (load : answers.load path = .ok document)
    (nears : walk.Nears answers walker.excludes inside root offset path) :
    after.Nears answers walker.excludes inside root offset path := by
  have new := h.unvisited steady only mem load nears.new
  obtain ⟨top, below, stack, ⟨same, empty⟩ | ⟨next, same, -, old, -⟩⟩ := h.frames steady
  · obtain ⟨frame, held, waits⟩ := nears.waits
    have frames := nears.frames
    rw [stack] at held frames
    refine ⟨new, ?_, ?_⟩
    · rcases List.mem_cons.1 held with rfl | held
      · exact absurd waits.offers (empty path)
      · exact ⟨frame, same ▸ held, waits⟩
    · rw [same]
      exact (List.forall_mem_cons.1 frames).2
  · refine nears.go_on stack same new (fun waits => ?_) old
    cases h with
    | visited entered =>
      cases stack
      cases same
      refine (waits.tail.resolve_left ?_).2
      rintro rfl
      cases entered.symm.trans nears.new
    | notLoaded _ failed =>
      cases stack
      cases same
      refine (waits.tail.resolve_left ?_).2
      rintro rfl
      cases load.symm.trans (steady.load_of failed)
    | searched | notSearched | done =>
      cases stack
      exact absurd waits not_waits_nil

/-- A round gives the file waited for, or the root goes on waiting. -/
theorem Found.nears (steady : walker.source.Steady answers known)
    (h : Found walker walk state included after later) (recursive : walk.recursive = true)
    (only : walk.PendingOnly (· ∈ known))
    (traces : walk.Traces answers walker.excludes root edges [])
    (closed : answers.Closed walker.excludes known root inside) (outside : ¬ inside path)
    (mem : path ∈ known) (nears : walk.Nears answers walker.excludes inside root offset path) :
    included.file.path = path ∧ included.site = ⟨root.document, offset⟩ ∨
      after.Nears answers walker.excludes inside root offset path := by
  have arrives := h.arrives steady only traces
  have unvisited := h.unvisited steady only mem nears.new
  have frames := nears.frames
  obtain ⟨frame, held, waits⟩ := nears.waits
  cases h with
  | @loaded _ visited file depth left first pending site below _ document _ new load =>
    obtain rfl := recursive
    have first_mem := (pendingOnly_cons.1 only).1 first List.mem_cons_self
    have carried : document.path = first :=
      steady.path_eq first first_mem document (steady.load_of load)
    obtain ⟨top, rest⟩ := List.forall_mem_cons.1 frames
    by_cases eq : first = path
    · subst eq
      refine .inl ⟨carried, ?_⟩
      have here := top.resolve_right fun held => outside (held first (.inl List.mem_cons_self))
      rw [← here.site, ← here.file]
    · right
      have first_inside : inside first := top.elim (fun waits => (waits.tail.resolve_left eq).1)
        fun held => held first (.inl List.mem_cons_self)
      have goes_on : Nears answers walker.excludes inside root offset path
          ⟨true, first.normalize :: visited, ⟨file, depth, left, pending, site⟩ :: below⟩ :=
        nears.go_on rfl rfl (unvisited.resolve_left fun same => eq (carried.symm.trans same))
          (fun waits => (waits.tail.resolve_left eq).2) fun _ =>
            .imp_left (List.mem_cons_of_mem _)
      refine goes_on.push fun other offers => ?_
      rcases offers with none | leads
      · cases none
      · have grammar : file.grammar = root.grammar := arrives.grammar
        rw [grammar] at leads
        exact closed first first_mem first_inside other ⟨document, carried ▸ arrives.enters, leads⟩

/-- The file waited for is given in the end, brought in by the directive of the root. -/
theorem Ends.gives_waited (steady : walker.source.Steady answers known) {final : σ}
    {files : List IncludedFile} (h : Ends walker walk state files final)
    (recursive : walk.recursive = true) (only : walk.PendingOnly (· ∈ known))
    (traces : walk.Traces answers walker.excludes root edges [])
    (closed : answers.Closed walker.excludes known root inside) (outside : ¬ inside path)
    (mem : path ∈ known) {document : Document} (load : answers.load path = .ok document)
    (nears : walk.Nears answers walker.excludes inside root offset path) :
    ∃ included ∈ files, included.file.path = path ∧ included.site = ⟨root.document, offset⟩ := by
  induction h with
  | ended step =>
    obtain ⟨frame, held, -⟩ := nears.waits
    rw [stack_of_round step] at held
    cases held
  | again step _ ih =>
    have step := again_of_round step
    exact ih ((recursive_invariant walker).again step recursive)
      ((known_invariant steady).again step only) (traces.again steady step)
      (step.nears steady only mem load nears)
  | found step _ ih =>
    have step := found_of_round step
    rcases step.nears steady recursive only traces closed outside mem nears with here | nears
    · exact ⟨_, List.mem_cons_self, here⟩
    · obtain ⟨included, given, here⟩ := ih ((recursive_invariant walker).found step recursive)
        ((known_invariant steady).found step only) (traces.found steady step only) nears
      exact ⟨included, List.mem_cons_of_mem _ given, here⟩

end

/-- **A file that a directive of the root brings in itself is brought in so by that directive
alone.** -/
theorem BroughtIn.alone (steady : walker.source.Steady answers known)
    (h : BroughtIn answers walker.excludes known root edges included)
    (enters : answers.Enters root [] included.file.path included.file.document) :
    ∃ edge ∈ edges, included.site = ⟨root.document, edge.offset⟩ ∧
      ∀ {state final : σ} {files : List IncludedFile},
        Ends walker (start root [edge] true []) state files final →
          ∃ other ∈ files, other.file.path = included.file.path ∧ other.site = included.site := by
  obtain ⟨edge, mem, site, before, behind, inside, find, held, closed, outside⟩ := h
  refine ⟨edge, mem, site, fun {state final files} ends => ?_⟩
  have mem_known : included.file.path ∈ known :=
    steady.mem_known _ _ _ _ find _ (List.mem_append_right _ List.mem_cons_self)
  have new : (start root [edge] true []).hasVisited included.file.path = false :=
    hasVisited_start (steady.normal _ mem_known) enters
  have traces : (start root [edge] true []).Traces answers walker.excludes root [edge] [] :=
    traces_start
  rw [site]
  cases ends with
  | ended step => cases stack_of_round step
  | @again _ after _ later _ _ step rest =>
    have step : Again walker ⟨true, [root.path.normalize], [⟨root, 0, [edge], [], 0⟩]⟩ state after
        later := again_of_round step
    refine rest.gives_waited steady ((recursive_invariant walker).again step rfl)
      ((known_invariant steady).again step pendingOnly_start)
      (traces.again steady step) closed outside mem_known enters.load ?_
    cases step with
    | searched found =>
      cases find.symm.trans (steady.find_of found)
      have waits : Waits inside root edge.offset included.file.path
          ⟨root, 0, [], before ++ included.file.path :: behind, edge.offset⟩ :=
        ⟨rfl, rfl, before, behind, rfl, held⟩
      exact ⟨new, ⟨_, List.mem_cons_self, waits⟩, List.forall_mem_singleton.2 (.inl waits)⟩
    | notSearched failed => cases find.symm.trans (steady.find_of failed)
  | @found _ after _ later _ given _ step =>
    have step : Found walker ⟨true, [root.path.normalize], [⟨root, 0, [edge], [], 0⟩]⟩ state given
        after later := found_of_round step
    cases step

end Walk

end BuildTargets
