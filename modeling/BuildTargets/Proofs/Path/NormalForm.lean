import BuildTargets.Proofs.Path.Components

/-!
# Normal forms of paths

Folded, the components of a path are an anchor (the root, or some steps up) and the names below it.
The normal form is written from them, so it has them for components and is its own normal form.
-/

namespace BuildTargets.Path

/-! ## Anchors -/

/-- Where a folded path begins: at the root, or some directories above where it is followed from. -/
inductive Anchor where
  | root
  | up (count : Nat)
deriving DecidableEq

def Anchor.components : Anchor → List Component
  | root => [.root]
  | up count => List.replicate count .up

theorem isStep_below_up (count : Nat) {names : List String}
    (isName : ∀ name ∈ names, IsName name) :
    ∀ step ∈ (Anchor.up count).components ++ names.map Component.name, step.IsStep := by
  intro step mem
  rcases List.mem_append.1 mem with mem | mem
  · exact List.eq_of_mem_replicate mem ▸ isStep_up
  · exact isStep_names isName step mem

/-- Components, listed last first, of names below an anchor. -/
structure Folded (anchor : Anchor) (names : List String) (done : List Component) : Prop where
  done_eq : done = (anchor.components ++ names.map Component.name).reverse
  isName : ∀ name ∈ names, IsName name

theorem Folded.push_name {anchor : Anchor} {names : List String} {done : List Component}
    (h : Folded anchor names done) {name : String} (valid : IsName name) :
    Folded anchor (names ++ [name]) (pushComponent done (.name name)) where
  done_eq := by simp [pushComponent, h.done_eq]
  isName := by
    intro other mem
    rcases List.mem_append.1 mem with mem | mem
    · exact h.isName other mem
    · exact List.mem_singleton.1 mem ▸ valid

/-- `..` takes the last name back; without one it is dropped at the root and kept otherwise. -/
theorem Folded.push_up {anchor : Anchor} {names : List String} {done : List Component}
    (h : Folded anchor names done) :
    ∃ anchor' names, Folded anchor' names (pushComponent done .up) ∧
      (anchor' = .root ↔ anchor = .root) := by
  rcases List.eq_nil_or_concat names with rfl | ⟨before, last, rfl⟩
  · cases anchor with
    | root =>
      refine ⟨.root, [], ⟨?_, h.isName⟩, Iff.rfl⟩
      rw [h.done_eq]
      rfl
    | up count =>
      refine ⟨.up (count + 1), [], ⟨?_, h.isName⟩, by simp⟩
      have ups : done = List.replicate count .up := by
        simpa [Anchor.components] using h.done_eq
      have pushed : pushComponent done .up = .up :: done := by
        rw [ups]
        cases count <;> rfl
      rw [pushed, ups, ← List.replicate_succ]
      simp [Anchor.components]
  · refine ⟨anchor, before, ⟨?_, fun name mem => h.isName name (by simp [mem])⟩, Iff.rfl⟩
    have last_first : done = .name last ::
        (anchor.components ++ before.map Component.name).reverse := by
      simpa using h.done_eq
    rw [last_first]
    rfl

theorem Folded.push_step {anchor : Anchor} {names : List String} {done : List Component}
    (h : Folded anchor names done) {step : Component} (isStep : step.IsStep) :
    ∃ anchor' names, Folded anchor' names (pushComponent done step) ∧
      (anchor' = .root ↔ anchor = .root) := by
  rcases isStep.cases with rfl | ⟨name, rfl, valid⟩
  · exact h.push_up
  · exact ⟨anchor, _, h.push_name valid, Iff.rfl⟩

theorem Folded.foldl_steps {anchor : Anchor} {names : List String} {done : List Component}
    (h : Folded anchor names done) {added : List Component} (isStep : ∀ step ∈ added, step.IsStep) :
    ∃ anchor' names, Folded anchor' names (added.foldl pushComponent done) ∧
      (anchor' = .root ↔ anchor = .root) := by
  induction added generalizing anchor names done with
  | nil => exact ⟨anchor, names, h, Iff.rfl⟩
  | cons step added ih =>
    obtain ⟨anchor', names, h, same⟩ := h.push_step (isStep step List.mem_cons_self)
    obtain ⟨last, names, h, same'⟩ :=
      ih h fun other mem => isStep other (List.mem_cons_of_mem _ mem)
    exact ⟨last, names, h, same'.trans same⟩

/-- The components of a path, folded, are names below an anchor, which is the root if the path
begins there. -/
theorem folded_components (path : Path) :
    ∃ anchor names, Folded anchor names (path.components.foldl pushComponent []) ∧
      (anchor = .root ↔ path.isAbsolute = true) := by
  have start : ∃ anchor, Folded anchor [] ((lead path.text.toList).foldl pushComponent []) ∧
      (anchor = .root ↔ path.isAbsolute = true) := by
    have nothing : Folded (.up 0) [] [] := ⟨rfl, by simp⟩
    rw [isAbsolute, beq_iff_eq]
    unfold lead
    split
    · next head => exact ⟨.root, ⟨rfl, by simp⟩, by simp [head]⟩
    · next head => split <;> exact ⟨.up 0, nothing, by simp [head]⟩
  obtain ⟨anchor, h, absolute⟩ := start
  obtain ⟨anchor', names, h, same⟩ :=
    h.foldl_steps fun step (mem : step ∈ steps path.text.toList) => isStep_of_mem_steps mem
  refine ⟨anchor', names, ?_, same.trans absolute⟩
  rwa [components_eq, List.foldl_append]

/-! ## Normal components -/

/-- The normal components of a path are some names below an anchor, which is the root if the path
begins there. -/
theorem exists_anchor (path : Path) : ∃ (anchor : Anchor) (names : List String),
    path.normalComponents = anchor.components ++ names.map Component.name ∧
      (∀ name ∈ names, IsName name) ∧ (anchor = .root ↔ path.isAbsolute = true) := by
  obtain ⟨anchor, names, h, absolute⟩ := path.folded_components
  refine ⟨anchor, names, ?_, h.isName, absolute⟩
  rw [normalComponents, h.done_eq, List.reverse_reverse]

/-- Folding what is folded changes nothing. -/
theorem foldl_reverse_pushComponent {done : List Component} (component : Component)
    (h : done.reverse.foldl pushComponent [] = done) :
    (pushComponent done component).reverse.foldl pushComponent [] =
      pushComponent done component := by
  have pushed : ∀ other, pushComponent done other = other :: done →
      (pushComponent done other).reverse.foldl pushComponent [] = pushComponent done other := by
    intro other eq
    rw [eq, List.reverse_cons, List.foldl_append, h]
    exact eq
  cases component with
  | here => exact h
  | root => exact pushed .root rfl
  | name text => exact pushed (.name text) rfl
  | up =>
    match done with
    | .name text :: before =>
      -- The name was pushed on what was folded before it.
      rw [List.reverse_cons, List.foldl_append] at h
      exact (List.cons.inj h).2
    | .root :: before => exact h
    | [] => exact pushed .up rfl
    | .up :: before => exact pushed .up rfl
    | .here :: before => exact pushed .up rfl

theorem foldl_normalComponents (path : Path) :
    path.normalComponents.foldl pushComponent [] = path.normalComponents.reverse := by
  have folded : ∀ (components done : List Component),
      done.reverse.foldl pushComponent [] = done →
        (components.foldl pushComponent done).reverse.foldl pushComponent [] =
          components.foldl pushComponent done := by
    intro components
    induction components with
    | nil => exact fun _ h => h
    | cons component components ih =>
      exact fun done h => ih _ (foldl_reverse_pushComponent component h)
  rw [normalComponents, List.reverse_reverse]
  exact folded path.components [] rfl

/-! ## Normal forms -/

theorem components_normalize (path : Path) : path.normalize.components =
    if path.normalComponents = [] then [.here] else path.normalComponents := by
  obtain ⟨anchor, names, folded, isName, -⟩ := path.exists_anchor
  rw [normalize]
  cases h : path.normalComponents with
  | nil => rfl
  | cons first rest =>
    rw [if_neg (List.cons_ne_nil _ _)]
    show (ofComponents (first :: rest)).components = first :: rest
    rw [← h, folded]
    cases anchor with
    | root => exact components_ofComponents_root (isStep_names isName)
    | up count => exact components_ofComponents (isStep_below_up count isName)

theorem normalComponents_normalize (path : Path) :
    path.normalize.normalComponents = path.normalComponents := by
  rw [normalComponents, components_normalize]
  split
  · next h => rw [h]; rfl
  · rw [foldl_normalComponents, List.reverse_reverse]

@[simp] theorem normalize_normalize (path : Path) : path.normalize.normalize = path.normalize := by
  rw [normalize, normalComponents_normalize, normalize]

theorem normalize_same_iff {a b : Path} :
    a.normalize.same b.normalize = true ↔ a.normalize = b.normalize := by
  constructor
  · intro same
    have folded := normalize_congr same
    rwa [normalize_normalize, normalize_normalize] at folded
  · intro eq
    rw [eq]
    exact same_iff.2 rfl

@[simp] theorem isAbsolute_normalize (path : Path) :
    path.normalize.isAbsolute = path.isAbsolute := by
  obtain ⟨anchor, names, folded, -, absolute⟩ := path.exists_anchor
  rw [Bool.eq_iff_iff, isAbsolute_iff, components_normalize, ← absolute, folded]
  cases anchor with
  | root => simp [Anchor.components]
  | up count => cases count <;> cases names <;> simp [Anchor.components, List.replicate_succ]

end BuildTargets.Path
