import BuildTargets.Proofs.Path.Location
import BuildTargets.Proofs.Path.Parent
import BuildTargets.Proofs.Path.Relative
import BuildTargets.Walk

/-!
# Normal forms written component by component

A normal form can be written without a list of components beside it: a draft grows by one component
after the other, and for `..` it is read again, to see whether it ends in a name, and is cut off
before that name. The draft is at any time the location reached so far, written out, so what comes of
it is the normal form.
-/

namespace BuildTargets.Path

/-! ## Drafts -/

/-- A draft without the name at its end, if it ends in one. -/
def cutName? (draft : Path) : Option Path :=
  match draft.fileName? with
  | some _ => draft.parent?
  | none => none

/-- Works one component into a draft. Where the draft ends in a name, `..` cuts the name off; at the
root it is dropped, and elsewhere it is kept. -/
def amend (draft : Path) : Component → Path
  | .here => draft
  | .up =>
    match draft.cutName? with
    | some shorter => shorter
    | none => if draft.isAbsolute then draft else draft.join ⟨".."⟩
  | component => draft.join ⟨component.text⟩

/-- A path with `.` and `..` worked into what has been written before them. -/
def drafted (path : Path) : Path :=
  let draft := path.components.foldl amend ⟨""⟩
  if draft.text = "" then draft.join ⟨"."⟩ else draft

/-! ## Pieces of joined paths -/

section

variable {base : Path} {step : Component}

theorem pieces_of_relative {path : Path} (relative : path.isAbsolute = false) :
    path.pieces = piecesFrom true 0 [] path.text.toList := by
  rw [isAbsolute, beq_eq_false_iff_ne] at relative
  rw [pieces]
  split
  · next rest text => exact absurd (by rw [text]; rfl) relative
  · rfl

theorem exists_text_join (base : Path) (isStep : step.IsStep) :
    ∃ between, (base.join ⟨step.text⟩).text.toList =
      base.text.toList ++ (between ++ step.text.toList) := by
  rw [join, isStep.relative, if_neg Bool.false_ne_true]
  split
  · exact ⟨[], String.toList_append⟩
  · refine ⟨['/'], ?_⟩
    rw [String.toList_append, String.toList_append, List.append_assoc]
    rfl

/-- A step behind a separator at the end of a path adds a piece. -/
theorem pieces_behind_slash {path : Path} {before : List Char}
    (ended : base.text.toList = before ++ ['/'])
    (written : path.text.toList = before ++ '/' :: step.text.toList) (isStep : step.IsStep) :
    path.pieces = base.pieces ++ [⟨step, before.length + 1, path.text.toList.length⟩] := by
  have length : before.length + 1 + step.text.toList.length = path.text.toList.length := by
    rw [written, List.length_append, List.length_cons]
    omega
  rw [← length, ← piecesFrom_step false _ isStep]
  by_cases filled : before = []
  · subst filled
    rw [pieces, pieces, ended, written]
    rfl
  · have front : (⟨String.ofList before⟩ : Path).text ≠ "" := by simpa using filled
    have short := @pieces_append base ⟨String.ofList before⟩ [] front
      (by rw [ended, String.toList_ofList])
    have long := @pieces_append path ⟨String.ofList before⟩ step.text.toList front
      (by rw [written, String.toList_ofList])
    rw [String.toList_ofList] at long
    rw [long, short]
    exact congrArg (· ++ _) (List.append_nil _).symm

/-- Joining a step to a path adds a piece, which ends where the path does. -/
theorem exists_pieces_join (base : Path) (isStep : step.IsStep) :
    ∃ start, (base.join ⟨step.text⟩).pieces =
      base.pieces ++ [⟨step, start, (base.join ⟨step.text⟩).text.toList.length⟩] := by
  rw [join, isStep.relative, if_neg Bool.false_ne_true]
  by_cases blank : base.text = ""
  · obtain ⟨text⟩ := base
    subst blank
    refine ⟨0, ?_⟩
    rw [if_pos (by simp), String.empty_append, pieces_of_relative isStep.relative,
      piecesFrom_step true 0 isStep, Nat.zero_add]
    rfl
  · by_cases ended : base.text.toList.getLast? = some '/'
    · obtain ⟨before, text⟩ := List.getLast?_eq_some_iff.1 ended
      refine ⟨before.length + 1, ?_⟩
      rw [if_pos (by simp [ended])]
      refine pieces_behind_slash text ?_ isStep
      rw [String.toList_append, text, List.append_assoc]
      rfl
    · refine ⟨base.text.toList.length + 1, ?_⟩
      have written : (base.text ++ "/" ++ step.text).toList =
          base.text.toList ++ '/' :: step.text.toList := by
        rw [String.toList_append, String.toList_append, List.append_assoc]
        rfl
      have length : (base.text ++ "/" ++ step.text).toList.length =
          base.text.toList.length + 1 + step.text.toList.length := by
        rw [written, List.length_append, List.length_cons]
        omega
      rw [if_neg (by simp [blank, ended]), length, ← piecesFrom_step false _ isStep]
      exact pieces_append blank written

/-- The path ends where its last component does, and the empty path is such a path. -/
def Trim (path : Path) : Prop :=
  path = ⟨""⟩ ∨ ∃ before last, path.pieces = before ++ [last] ∧ last.stop = path.text.toList.length

theorem trim_join (base : Path) (isStep : step.IsStep) : (base.join ⟨step.text⟩).Trim := by
  obtain ⟨start, pieces⟩ := exists_pieces_join base isStep
  exact .inr ⟨_, _, pieces, rfl⟩

/-- The parent of a path with a step joined to it is that path again, as it was written. -/
theorem parent?_join (trim : base.Trim) (isStep : step.IsStep) :
    (base.join ⟨step.text⟩).parent? = some base := by
  obtain ⟨start, pieces⟩ := exists_pieces_join base isStep
  have inner : step ≠ .root := by
    rcases isStep.cases with rfl | ⟨name, rfl, -⟩ <;> exact fun eq => nomatch eq
  rw [parent?, pieces, List.reverse_append, List.reverse_singleton, List.singleton_append]
  dsimp only
  rw [if_neg inner, List.reverse_reverse]
  rcases trim with rfl | ⟨before, last, ends, stop⟩
  · rfl
  · obtain ⟨between, text⟩ := exists_text_join base isStep
    rw [ends, List.append_assoc, List.singleton_append] at pieces
    rw [ends, stretch_eq pieces, stop, text, List.take_left, String.ofList_toList]

end

/-! ## Drafts and locations -/

namespace Location

variable {here : Location} {step : Component}

/-- How a location is written while it is a draft: the start is not written at all. -/
def draft (here : Location) : Path := ofComponents here.components

theorem draft_concat (anchor : Anchor) (names : List String) (last : String) :
    draft ⟨anchor, names ++ [last]⟩ =
      (draft ⟨anchor, names⟩).join ⟨(Component.name last).text⟩ := by
  rw [draft, draft, components, components, List.map_append, ← List.append_assoc, ofComponents,
    List.foldl_append]
  rfl

theorem draft_ups (count : Nat) :
    draft ⟨.up (count + 1), []⟩ = (draft ⟨.up count, []⟩).join ⟨Component.up.text⟩ := by
  have ups : components ⟨.up (count + 1), []⟩ = components ⟨.up count, []⟩ ++ [.up] := by
    simp [components, Anchor.components, List.replicate_succ']
  rw [draft, draft, ups, ofComponents, List.foldl_append]
  rfl

theorem components_draft (named : here.Named) : here.draft.components = here.components := by
  obtain ⟨anchor, names⟩ := here
  cases anchor with
  | root => exact components_ofComponents_root (isStep_names named)
  | up count => exact components_ofComponents (isStep_below_up count named)

theorem trim_draft (named : here.Named) : here.draft.Trim := by
  obtain ⟨anchor, names⟩ := here
  rcases List.eq_nil_or_concat names with rfl | ⟨names, last, rfl⟩
  · cases anchor with
    | root => exact .inr ⟨[], ⟨.root, 0, 1⟩, rfl, rfl⟩
    | up count =>
      cases count with
      | zero => exact .inl rfl
      | succ count =>
        rw [draft_ups]
        exact trim_join _ isStep_up
  · rw [List.concat_eq_append] at named ⊢
    rw [draft_concat]
    exact trim_join _ (named last (by simp)).isStep

theorem cutName?_concat {anchor : Anchor} {names : List String} {last : String}
    (named : Named ⟨anchor, names ++ [last]⟩) :
    (draft ⟨anchor, names ++ [last]⟩).cutName? = some (draft ⟨anchor, names⟩) := by
  have front : Named ⟨anchor, names⟩ := fun name mem => named name (by simp [mem])
  have name : (draft ⟨anchor, names ++ [last]⟩).fileName? = some last := by
    rw [fileName?, components_draft named, components, List.map_append, ← List.append_assoc]
    simp
  rw [cutName?, name, draft_concat]
  exact parent?_join (trim_draft front) (named last (by simp)).isStep

/-- A draft of steps up alone is relative and cannot be cut. -/
theorem cutName?_ups (count : Nat) :
    (draft ⟨.up count, []⟩).cutName? = none ∧ (draft ⟨.up count, []⟩).isAbsolute = false := by
  have read : (draft ⟨.up count, []⟩).components = List.replicate count .up := by
    rw [components_draft (named_nil _), components]
    exact List.append_nil _
  rw [Bool.eq_false_iff, Ne, isAbsolute_iff, cutName?, fileName?, read]
  cases count with
  | zero =>
    refine ⟨rfl, fun first => ?_⟩
    cases first
  | succ count =>
    rw [List.replicate_succ', List.getLast?_concat, ← List.replicate_succ', List.replicate_succ]
    refine ⟨rfl, fun first => ?_⟩
    cases first

/-- A component worked into the draft of a location gives the draft of the location one component
further. -/
theorem amend_draft (named : here.Named) (isStep : step.IsStep) :
    here.draft.amend step = (here.go step).draft := by
  obtain ⟨anchor, names⟩ := here
  rcases isStep.cases with rfl | ⟨name, rfl, -⟩
  · rcases List.eq_nil_or_concat names with rfl | ⟨names, last, rfl⟩
    · cases anchor with
      | root => rfl
      | up count =>
        obtain ⟨whole, relative⟩ := cutName?_ups count
        rw [amend, whole, relative, go, climb_nil, Anchor.climb, draft_ups]
        rfl
    · rw [List.concat_eq_append] at named ⊢
      rw [amend, cutName?_concat named, go, climb_concat]
  · rw [go, draft_concat]
    rfl

theorem foldl_amend {added : List Component} (named : here.Named)
    (isStep : ∀ step ∈ added, step.IsStep) :
    added.foldl amend here.draft = (here.follow added).draft := by
  induction added generalizing here with
  | nil => rfl
  | cons step added ih =>
    rw [List.forall_mem_cons] at isStep
    rw [List.foldl_cons, amend_draft named isStep.1, ih (named.go isStep.1) isStep.2]
    rfl

theorem foldl_amend_lead (text : List Char) :
    (lead text).foldl amend start.draft = (start.follow (lead text)).draft ∧
      (start.follow (lead text)).Named := by
  unfold lead
  split
  · exact ⟨rfl, named_nil _⟩
  · split <;> exact ⟨rfl, named_nil _⟩

end Location

theorem foldl_amend_components (path : Path) :
    path.components.foldl amend ⟨""⟩ = path.location.draft := by
  obtain ⟨begins, named⟩ := Location.foldl_amend_lead path.text.toList
  rw [location, components_eq, List.foldl_append, Location.follow_append,
    ← Location.foldl_amend named fun _ => isStep_of_mem_steps, ← begins]
  rfl

/-- What is written component by component is the normal form. -/
theorem drafted_eq (path : Path) : path.drafted = path.normalize := by
  obtain ⟨components, named, -⟩ := path.location_spec
  rw [drafted, foldl_amend_components, normalize, components]
  cases written : path.location.components with
  | nil =>
    rw [Location.draft, written]
    rfl
  | cons first rest =>
    have filled : path.location.draft.text ≠ "" := by
      intro blank
      have read := Location.components_draft named
      rw [written, components_eq, blank] at read
      cases read
    dsimp only
    rw [if_neg filled, Location.draft, written]

/-- **A normal form is a location, written out.** The components of a path, one after the other,
lead to names below the root or below a number of directories up: `.` leads nowhere, and `..` takes
the last name back, stays at the root and goes up further elsewhere. The normal form of the path is
that location as it is written, `.` for the place where paths begin, and it comes out as well when
each component is worked into what has been written before. It is its own normal form. What is
joined to a path goes on from the location of the path, so that both can be put into normal form
before. Paths have one normal form if and only if they have one location, and so a walk that has
entered one path takes just the paths with its location for visited as well. -/
theorem normal_form_is_written_location (a b : Path) :
    a.location.Named ∧
    (a.location.anchor = .root ↔ a.isAbsolute = true) ∧
    a.normalize.text = a.location.written ∧
    a.drafted = a.normalize ∧
    a.normalize.normalize = a.normalize ∧
    (a.join b).location = a.location.follow b.components ∧
    (a.join b).normalize = (a.normalize.join b).normalize ∧
    (a.join b).normalize = (a.join b.normalize).normalize ∧
    (a.normalize = b.normalize ↔ a.location = b.location) ∧
    ∀ recursive visited stack,
      (Walk.mk recursive (a.normalize :: visited) stack).hasVisited b = true ↔
        a.location = b.location ∨ (Walk.mk recursive visited stack).hasVisited b = true := by
  obtain ⟨-, named, absolute⟩ := a.location_spec
  refine ⟨named, absolute, a.text_normalize, a.drafted_eq, a.normalize_normalize,
    a.location_join b, a.normalize_join_left b, a.normalize_join_right b, normalize_eq_iff,
    fun recursive visited stack => ?_⟩
  rw [Walk.hasVisited, Walk.hasVisited, List.any_cons, Bool.or_eq_true, normalize_same_iff,
    normalize_eq_iff, eq_comm]

/-- Two spellings of one place above the directory that both are followed from. -/
theorem respelled_path_counts_as_visited :
    let a : Path := ⟨"a/..//../b"⟩
    let b : Path := ⟨"./../b/x/.."⟩
    a.normalize.text = "../b" ∧ a.normalize = b.normalize ∧
      (a.join b).location = ⟨.up 1, ["b"]⟩ ∧
      (Walk.mk true [a.normalize] []).hasVisited b = true := by
  intro a b
  obtain ⟨-, -, text, -, -, joined, -, -, same, visited⟩ := normal_form_is_written_location a b
  have here : a.location = ⟨.up 1, ["b"]⟩ := by decide +kernel
  have there : b.location = ⟨.up 1, ["b"]⟩ := by decide +kernel
  rw [here] at text joined
  exact ⟨text.trans (by decide +kernel), same.2 (here.trans there.symm),
    joined.trans (by decide +kernel), (visited true [] []).2 (.inl (here.trans there.symm))⟩

end BuildTargets.Path
