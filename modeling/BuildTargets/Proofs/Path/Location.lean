import BuildTargets.Proofs.Path.NormalForm

/-!
# Locations of paths

Read without a look at any file, a path leads to some names below the root, or below a number of
directories up: `..` takes the last name back, stays at the root and goes up further elsewhere. The
normal form of a path is its location written out. So two paths have one normal form if and only if
they have one location, and what is joined to a path goes on from its location.
-/

namespace BuildTargets.Path

/-! ## Locations -/

/-- The anchor one directory up; above the root there is none. -/
def Anchor.climb : Anchor → Anchor
  | root => root
  | up count => up (count + 1)

/-- Where a path leads: some names below an anchor, the outermost first. -/
structure Location where
  anchor : Anchor
  names : List String
deriving DecidableEq

namespace Location

def start : Location := ⟨.up 0, []⟩

/-- One directory up: the last name is taken back, if there is one. -/
def climb (here : Location) : Location :=
  if here.names = [] then ⟨here.anchor.climb, []⟩ else ⟨here.anchor, here.names.dropLast⟩

def go (here : Location) : Component → Location
  | .root => ⟨.root, []⟩
  | .here => here
  | .up => here.climb
  | .name text => ⟨here.anchor, here.names ++ [text]⟩

def follow (here : Location) (components : List Component) : Location := components.foldl go here

def components (here : Location) : List Component :=
  here.anchor.components ++ here.names.map .name

def Named (here : Location) : Prop := ∀ name ∈ here.names, IsName name

/-- How a location is written: its names behind a separator or behind the steps up; `.` if there is
nothing to write. -/
def written (here : Location) : String :=
  match here.anchor with
  | .root => "/" ++ "/".intercalate here.names
  | .up count =>
    if count = 0 ∧ here.names = [] then "."
    else "/".intercalate (List.replicate count ".." ++ here.names)

theorem named_nil (anchor : Anchor) : Named ⟨anchor, []⟩ := List.forall_mem_nil _

theorem Named.go {here : Location} {step : Component} (named : here.Named) (isStep : step.IsStep) :
    (here.go step).Named := by
  rcases isStep.cases with rfl | ⟨name, rfl, isName⟩
  · show here.climb.Named
    unfold climb
    split
    · exact named_nil _
    · exact fun name mem => named name (List.dropLast_subset _ mem)
  · intro other mem
    rcases List.mem_append.1 mem with mem | mem
    · exact named other mem
    · exact List.mem_singleton.1 mem ▸ isName

@[simp] theorem climb_nil (anchor : Anchor) : climb ⟨anchor, []⟩ = ⟨anchor.climb, []⟩ := rfl

@[simp] theorem climb_concat (anchor : Anchor) (names : List String) (last : String) :
    climb ⟨anchor, names ++ [last]⟩ = ⟨anchor, names⟩ := by
  simp [climb]

theorem follow_append (here : Location) (a b : List Component) :
    here.follow (a ++ b) = (here.follow a).follow b := List.foldl_append

theorem follow_root (here there : Location) (rest : List Component) :
    here.follow (.root :: rest) = there.follow (.root :: rest) := rfl

theorem follow_names (here : Location) (names : List String) :
    here.follow (names.map .name) = ⟨here.anchor, here.names ++ names⟩ := by
  induction names generalizing here with
  | nil =>
    rw [List.append_nil]
    rfl
  | cons name names ih =>
    rw [List.map_cons, follow, List.foldl_cons]
    refine (ih _).trans ?_
    simp only [go, List.append_assoc, List.singleton_append]

theorem follow_ups (count : Nat) : start.follow (List.replicate count .up) = ⟨.up count, []⟩ := by
  induction count with
  | zero => rfl
  | succ count ih =>
    rw [List.replicate_succ', follow_append, ih]
    rfl

theorem follow_components (here : Location) : start.follow here.components = here := by
  obtain ⟨anchor, names⟩ := here
  rw [components, follow_append]
  cases anchor with
  | root => exact follow_names ⟨.root, []⟩ names
  | up count =>
    rw [Anchor.components, follow_ups, follow_names]
    rfl

/-! ## Folded components -/

/-- Wherever one starts, a component more is one component further. -/
theorem follow_pushComponent (here : Location) (done : List Component) (component : Component) :
    here.follow (pushComponent done component).reverse = (here.follow done.reverse).go component := by
  have pushed : ∀ other : Component,
      here.follow (other :: done).reverse = (here.follow done.reverse).go other := by
    intro other
    rw [List.reverse_cons, follow_append]
    rfl
  cases component with
  | here => rfl
  | root => exact pushed .root
  | name text => exact pushed (.name text)
  | up =>
    match done with
    | .name text :: before =>
      -- The step up takes back the name that was followed last.
      rw [pushComponent, List.reverse_cons, follow_append]
      exact (climb_concat _ _ text).symm
    | .root :: before =>
      rw [pushComponent, List.reverse_cons, follow_append]
      rfl
    | [] => exact pushed .up
    | .up :: before => exact pushed .up
    | .here :: before => exact pushed .up

theorem follow_normalComponents (here : Location) (path : Path) :
    here.follow path.normalComponents = here.follow path.components := by
  have folded : ∀ components done : List Component,
      here.follow (components.foldl pushComponent done).reverse =
        (here.follow done.reverse).follow components := by
    intro components
    induction components with
    | nil => exact fun _ => rfl
    | cons component components ih =>
      intro done
      rw [List.foldl_cons, ih, follow_pushComponent]
      rfl
  exact folded path.components []

theorem follow_normalize (here : Location) (path : Path) :
    here.follow path.normalize.components = here.follow path.components := by
  rw [components_normalize, ← follow_normalComponents]
  split
  · next empty =>
    rw [empty]
    rfl
  · rfl

end Location

/-! ## Locations of paths -/

/-- Where a path leads. -/
def location (path : Path) : Location := .follow .start path.components

@[simp] theorem location_normalize (path : Path) : path.normalize.location = path.location :=
  Location.follow_normalize .start path

/-- The location of a path is some names below an anchor, which is the root if the path begins
there, and its components are the normal components of the path. -/
theorem location_spec (path : Path) :
    path.normalComponents = path.location.components ∧
      path.location.Named ∧
      (path.location.anchor = .root ↔ path.isAbsolute = true) := by
  obtain ⟨anchor, names, eq, isName, absolute⟩ := path.exists_anchor
  have here : path.location = ⟨anchor, names⟩ := by
    rw [location, ← Location.follow_normalComponents, eq]
    exact Location.follow_components ⟨anchor, names⟩
  rw [here]
  exact ⟨eq, isName, absolute⟩

/-- Paths have one normal form if and only if they lead to one location. -/
theorem normalize_eq_iff {a b : Path} : a.normalize = b.normalize ↔ a.location = b.location := by
  constructor
  · intro same
    rw [← a.location_normalize, same, location_normalize]
  · intro same
    rw [normalize, normalize, a.location_spec.1, b.location_spec.1, same]

/-! ## Joined paths -/

/-- The steps of a relative path are all that counts for where it leads. -/
theorem follow_components_of_relative {path : Path} (relative : path.isAbsolute = false)
    (here : Location) : here.follow path.components = here.follow (steps path.text.toList) := by
  have head : path.text.toList.head? ≠ some '/' := by
    rwa [isAbsolute, beq_eq_false_iff_ne] at relative
  rw [components_eq, Location.follow_append, lead, if_neg head]
  split <;> rfl

/-- What is joined to a path goes on from where the path leads. -/
theorem location_join (a b : Path) : (a.join b).location = a.location.follow b.components := by
  cases absolute : b.isAbsolute with
  | true =>
    obtain ⟨rest, eq⟩ := List.head?_eq_some_iff.1 ((isAbsolute_iff b).1 absolute)
    rw [join, absolute, if_pos rfl, location, eq]
    exact Location.follow_root _ _ rest
  | false =>
    by_cases blank : a.text = ""
    · obtain ⟨text⟩ := a
      subst blank
      rw [join, absolute, if_neg Bool.false_ne_true, if_pos (by simp), String.empty_append]
      rfl
    · rw [location, components_join_relative a absolute blank, Location.follow_append,
        follow_components_of_relative absolute]
      rfl

theorem normalize_join_left (a b : Path) : (a.join b).normalize = (a.normalize.join b).normalize := by
  rw [normalize_eq_iff, location_join, location_join, location_normalize]

theorem normalize_join_right (a b : Path) :
    (a.join b).normalize = (a.join b.normalize).normalize := by
  rw [normalize_eq_iff, location_join, location_join, Location.follow_normalize]

/-! ## Written locations -/

section

variable {base : Path} {step : Component} {added : List Component}

theorem Component.IsStep.relative (h : step.IsStep) : isAbsolute ⟨step.text⟩ = false := by
  rw [isAbsolute, beq_eq_false_iff_ne]
  exact fun head => h.written.1 (List.mem_of_head? head)

theorem Component.IsStep.getLast?_append (h : step.IsStep) (before : List Char) :
    (before ++ step.text.toList).getLast? ≠ some '/' := by
  obtain ⟨slash, filled, -⟩ := h.written
  rw [List.getLast?_append, List.getLast?_eq_some_getLast filled, Option.some_or]
  intro last
  exact slash (Option.some.inj last ▸ List.getLast_mem filled)

/-- Steps joined to a path stand behind it with separators, if there is none at its end. -/
theorem text_foldl_join (filled : base.text ≠ "") (plain : base.text.toList.getLast? ≠ some '/')
    (isStep : ∀ step ∈ added, step.IsStep) :
    (added.foldl (fun path step => path.join ⟨step.text⟩) base).text =
      "/".intercalate (base.text :: added.map Component.text) := by
  induction added generalizing base with
  | nil => exact String.intercalate_singleton.symm
  | cons step added ih =>
    rw [List.forall_mem_cons] at isStep
    have next : base.join ⟨step.text⟩ = ⟨base.text ++ "/" ++ step.text⟩ := by
      rw [join, isStep.1.relative, if_neg Bool.false_ne_true, if_neg (by simp [filled, plain])]
    have open_ended : (base.text ++ "/" ++ step.text).toList.getLast? ≠ some '/' := by
      rw [String.toList_append]
      exact isStep.1.getLast?_append _
    rw [List.foldl_cons, next, ih (by simp) open_ended isStep.2, List.map_cons,
      String.intercalate_cons_append, String.intercalate_cons_cons]

theorem text_ofComponents (filled : added ≠ []) (isStep : ∀ step ∈ added, step.IsStep) :
    (ofComponents added).text = "/".intercalate (added.map Component.text) := by
  obtain ⟨first, rest, rfl⟩ := List.exists_cons_of_ne_nil filled
  rw [List.forall_mem_cons] at isStep
  have begin : join ⟨""⟩ ⟨first.text⟩ = ⟨first.text⟩ := by
    rw [join, isStep.1.relative, if_neg Bool.false_ne_true, if_pos (by simp), String.empty_append]
  have later := @text_foldl_join ⟨first.text⟩ rest (by simpa using isStep.1.written.2.1)
    (isStep.1.getLast?_append []) isStep.2
  rw [ofComponents, List.foldl_cons, begin, later]
  rfl

theorem text_ofComponents_root (isStep : ∀ step ∈ added, step.IsStep) :
    (ofComponents (.root :: added)).text = "/" ++ "/".intercalate (added.map Component.text) := by
  cases added with
  | nil => rfl
  | cons first rest =>
    rw [List.forall_mem_cons] at isStep
    have begin : join (join ⟨""⟩ ⟨"/"⟩) ⟨first.text⟩ = ⟨"/" ++ first.text⟩ := by
      rw [join, isStep.1.relative, if_neg Bool.false_ne_true, if_pos (by decide)]
      rfl
    have open_ended : ("/" ++ first.text).toList.getLast? ≠ some '/' := by
      rw [String.toList_append]
      exact isStep.1.getLast?_append _
    have later := @text_foldl_join ⟨"/" ++ first.text⟩ rest (by simp) open_ended isStep.2
    rw [String.intercalate_cons_append, ← begin] at later
    exact later

end

theorem text_names (names : List String) :
    (names.map Component.name).map Component.text = names := by
  rw [List.map_map]
  exact List.map_id names

theorem text_normalize (path : Path) : path.normalize.text = path.location.written := by
  obtain ⟨components, isName, -⟩ := path.location_spec
  generalize path.location = here at components isName
  obtain ⟨anchor, names⟩ := here
  have isStep := isStep_names isName
  rw [normalize, components]
  cases anchor with
  | root =>
    show (ofComponents (.root :: names.map Component.name)).text = "/" ++ "/".intercalate names
    rw [text_ofComponents_root isStep, text_names]
  | up count =>
    by_cases nothing : count = 0 ∧ names = []
    · obtain ⟨rfl, rfl⟩ := nothing
      rfl
    · have filled : (Anchor.up count).components ++ names.map Component.name ≠ [] := by
        simpa [Anchor.components] using nothing
      have text := text_ofComponents filled (isStep_below_up count isName)
      rw [List.map_append, text_names, Anchor.components, List.map_replicate] at text
      rw [Location.written]
      dsimp only
      rw [if_neg nothing]
      split
      · next empty => exact absurd empty filled
      · exact text

end BuildTargets.Path
