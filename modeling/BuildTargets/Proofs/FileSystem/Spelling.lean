import BuildTargets.Proofs.FileSystem.Write
import BuildTargets.Proofs.Path.NormalForm

/-!
# Spellings of a place

Folding `.` and `..` away does not change where a path leads, so two paths with the same normal form
lead to the same place. The converse holds for paths with the same anchor: where both are absolute,
or both climb as far above the working directory. An absolute path and a relative one, or relative
ones that climb to different directories, can lead to one place and have different normal forms.
-/

namespace BuildTargets

/-! ## Anchors of paths -/

namespace Path

/-- The anchor of the normal form: the root, or how far above the working directory it begins. -/
def anchor (path : Path) : Anchor :=
  match path.normalComponents with
  | .root :: _ => .root
  | components => .up (components.takeWhile (· == .up)).length

theorem anchor_eq {path : Path} {anchor : Anchor} {names : List String}
    (h : path.normalComponents = anchor.components ++ names.map Component.name) :
    path.anchor = anchor := by
  rw [Path.anchor, h]
  cases anchor with
  | root => rfl
  | up count =>
    have names_stop : (names.map Component.name).takeWhile (· == Component.up) = [] := by
      cases names <;> rfl
    have ups : ((Anchor.up count).components ++ names.map Component.name).takeWhile
        (· == Component.up) = List.replicate count .up := by
      rw [Anchor.components, List.takeWhile_append_of_pos (by simp), names_stop, List.append_nil]
    split
    · next eq =>
      cases count <;> cases names <;> simp [Anchor.components, List.replicate_succ] at eq
    · rw [ups, List.length_replicate]

theorem normalComponents_eq (path : Path) : ∃ names : List String,
    path.normalComponents = path.anchor.components ++ names.map Component.name := by
  obtain ⟨anchor, names, eq, -⟩ := path.exists_anchor
  rw [anchor_eq eq]
  exact ⟨names, eq⟩

theorem anchor_eq_root_iff {path : Path} : path.anchor = .root ↔ path.isAbsolute = true := by
  obtain ⟨anchor, names, eq, -, absolute⟩ := path.exists_anchor
  rw [anchor_eq eq, absolute]

@[simp] theorem anchor_normalize (path : Path) : path.normalize.anchor = path.anchor := by
  rw [anchor, normalComponents_normalize, anchor]

end Path

namespace FileSystem

/-! ## Where spellings lead -/

theorem placeFrom_pushComponent (place : List String) (done : List Path.Component)
    (component : Path.Component) :
    placeFrom place (Path.pushComponent done component).reverse =
      stepPlace (placeFrom place done.reverse) component := by
  have pushed : placeFrom place (component :: done).reverse =
      stepPlace (placeFrom place done.reverse) component := by
    rw [List.reverse_cons, placeFrom_append]
    rfl
  cases component with
  | here => rfl
  | root => exact pushed
  | name text => exact pushed
  | up =>
    match done with
    | .name text :: before =>
      -- A step up takes the name back that was followed last.
      rw [List.reverse_cons, placeFrom_append]
      exact List.dropLast_concat.symm
    | .root :: before =>
      rw [Path.pushComponent, List.reverse_cons, placeFrom_append]
      rfl
    | [] => exact pushed
    | .up :: before => exact pushed
    | .here :: before => exact pushed

theorem placeFrom_normalComponents (place : List String) (path : Path) :
    placeFrom place path.normalComponents = placeFrom place path.components := by
  have folded : ∀ components done : List Path.Component,
      placeFrom place (components.foldl Path.pushComponent done).reverse =
        placeFrom (placeFrom place done.reverse) components := by
    intro components
    induction components with
    | nil => exact fun _ => rfl
    | cons component components ih =>
      intro done
      rw [List.foldl_cons, ih, placeFrom_pushComponent]
      rfl
  exact folded path.components []

/-- **Folding does not change where a path leads.** -/
theorem placeFrom_normalize (place : List String) (path : Path) :
    placeFrom place path.normalize.components = placeFrom place path.components := by
  rw [Path.components_normalize, ← placeFrom_normalComponents]
  split
  · next empty =>
    rw [empty]
    rfl
  · rfl

theorem normalize_eq_of_placeFrom {place : List String} {a b : Path} (same : a.anchor = b.anchor)
    (meet : placeFrom place a.components = placeFrom place b.components) :
    a.normalize = b.normalize := by
  obtain ⟨names, a_eq⟩ := a.normalComponents_eq
  obtain ⟨names', b_eq⟩ := b.normalComponents_eq
  rw [← placeFrom_normalComponents, ← placeFrom_normalComponents place b, a_eq, b_eq, same,
    placeFrom_append, placeFrom_append, placeFrom_names, placeFrom_names,
    List.append_cancel_left_eq] at meet
  rw [Path.normalize, Path.normalize, a_eq, b_eq, same, meet]

/-! ## Paths to one place -/

variable {files : FileSystem} {a b path : Path} {place : List String}

/-- The place that a path leads to, if something is there. -/
def place? (files : FileSystem) (path : Path) : Option (List String) :=
  match files.lookup path with
  | .ok (place, _) => some place
  | .error _ => none

theorem place?_eq_some :
    files.place? path = some place ↔ ∃ entry, files.lookup path = .ok (place, entry) := by
  unfold place?
  split
  · next found entry eq => simp [eq]
  · next cause eq => simp [eq]

theorem place_of_place? (h : files.place? path = some place) :
    place = placeFrom files.workingDirectory path.components := by
  obtain ⟨entry, found⟩ := place?_eq_some.1 h
  exact locate_eq_placeFrom (lookup_eq_ok found).2.1

/-- Two paths lead to one place, where there is something. -/
def Meet (files : FileSystem) (a b : Path) : Prop :=
  ∃ place, files.place? a = some place ∧ files.place? b = some place

/-- **Two spellings of one place with the same anchor have the same normal form.** -/
theorem Meet.normalize_eq (h : files.Meet a b) (same : a.anchor = b.anchor) :
    a.normalize = b.normalize := by
  obtain ⟨place, first, second⟩ := h
  exact normalize_eq_of_placeFrom same
    ((place_of_place? first).symm.trans (place_of_place? second))

/-- Spellings with one normal form lead to the same entry. -/
theorem lookup_eq_of_normalize {found found' : List String × Entry}
    (same : a.normalize = b.normalize) (first : files.lookup a = .ok found)
    (second : files.lookup b = .ok found') : found = found' := by
  obtain ⟨place, entry⟩ := found
  obtain ⟨place', entry'⟩ := found'
  obtain ⟨-, located, there, -⟩ := lookup_eq_ok first
  obtain ⟨-, located', there', -⟩ := lookup_eq_ok second
  obtain rfl : place = place' := by
    rw [locate_eq_placeFrom located, locate_eq_placeFrom located', ← placeFrom_normalize _ a, same,
      placeFrom_normalize]
  rw [Option.some.inj (there.symm.trans there')]

theorem document_eq_of_normalize {document other : Document} (same : a.normalize = b.normalize)
    (first : files.openDocument a = .ok document) (second : files.openDocument b = .ok other) :
    document = other := by
  obtain ⟨path, text⟩ := document
  obtain ⟨path', text'⟩ := other
  obtain ⟨carried, read⟩ := openDocument_eq_ok first
  obtain ⟨carried', read'⟩ := openDocument_eq_ok second
  obtain ⟨place, content, found⟩ := lookup_of_openDocument first
  obtain ⟨place', content', found'⟩ := lookup_of_openDocument second
  have texts : files.readText a = files.readText b := by
    rw [readText, readText, FileSystem.read, FileSystem.read, found, found',
      lookup_eq_of_normalize same found found']
  rw [read, read'] at texts
  cases texts
  dsimp only at carried carried'
  rw [carried, carried', same]

/-! ## Absolute paths to files -/

/-- The root is only written in ways that ask for a directory. -/
theorem asksForDirectory_of_root (h : path.components = [.root]) :
    asksForDirectory path = true := by
  have first : path.text.toList.head? = some '/' := by
    have absolute : path.isAbsolute = true := by
      rw [Path.isAbsolute_iff, h]
      rfl
    rwa [Path.isAbsolute, beq_iff_eq] at absolute
  have slash : '/' ∈ path.text.toList.reverse := List.mem_reverse.2 (List.mem_of_head? first)
  obtain ⟨part, before, reversed, last⟩ := List.eq_append_cons_of_mem slash
  have text : path.text.toList = before.reverse ++ '/' :: part.reverse := by
    rw [← List.reverse_reverse path.text.toList, reversed]
    simp
  -- Nothing that counts stands behind the last separator.
  have steps : Path.steps path.text.toList = [] := by
    rw [Path.components_eq, Path.lead, if_pos first] at h
    exact (List.cons.inj h).2
  have behind : '/' ∉ part.reverse := fun mem => last (List.mem_reverse.1 mem)
  rw [text, Path.steps_append, Path.steps_of_not_mem behind, List.append_eq_nil_iff,
    Option.toList_eq_nil_iff] at steps
  obtain ⟨-, empty⟩ := steps
  unfold Path.Component.ofPart? at empty
  rw [asksForDirectory, reversed]
  split at empty
  · next blank =>
    rcases blank with blank | dot
    · rw [List.reverse_eq_nil_iff.1 blank]
      rfl
    · rw [List.reverse_eq_iff.1 dot]
      rfl
  · split at empty <;> cases empty

/-- The normal form of an absolute path to a file names, behind the root, the place of the file. -/
theorem components_of_file {content : ByteArray} (absolute : path.isAbsolute = true)
    (h : files.lookup path = .ok (place, .file content)) :
    path.normalize.components = .root :: place.map .name ∧ place ≠ [] := by
  obtain ⟨-, located, there, asks⟩ := lookup_eq_ok h
  obtain ⟨names, normal⟩ := path.normalComponents_eq
  rw [Path.anchor_eq_root_iff.2 absolute] at normal
  have leads : place = names := by
    rw [locate_eq_placeFrom located, ← placeFrom_normalComponents, normal, placeFrom_append,
      placeFrom_names]
    rfl
  constructor
  · rw [Path.components_normalize, normal, leads]
    rfl
  · rintro rfl
    rw [Path.isAbsolute_iff] at absolute
    match components : path.components with
    | [] =>
      rw [components] at absolute
      cases absolute
    | [first] =>
      rw [components] at absolute
      cases absolute
      cases (asks rfl).symm.trans (asksForDirectory_of_root components)
    | first :: step :: rest =>
      -- A step from the root would need a directory there.
      rw [components] at absolute located
      cases absolute
      have inner : step ∈ path.components.tail := by
        rw [components]
        exact List.mem_cons_self
      have isStep : step = .up ∨ ∃ name, step = .name name :=
        (Path.isStep_of_mem_tail_components inner).cases.imp_right fun ⟨name, eq, _⟩ => ⟨name, eq⟩
      have located : files.locate [] (step :: rest) = .ok [] := located
      obtain ⟨entries, root, -⟩ := locate_step_eq_ok located isStep
      cases there.symm.trans root

/-- A document that was read at an absolute path lies in a directory with an absolute path. -/
theorem isAbsolute_directory {document : Document} (absolute : path.isAbsolute = true)
    (h : files.openDocument path = .ok document) : document.path.directory.isAbsolute = true := by
  obtain ⟨place, content, found⟩ := lookup_of_openDocument h
  obtain ⟨components, filled⟩ := components_of_file absolute found
  obtain ⟨names, name, rfl⟩ := (List.eq_nil_or_concat place).resolve_left filled
  have divided : document.path.components = (.root :: names.map .name) ++ [.name name] := by
    rw [(openDocument_eq_ok h).1, components, List.concat_eq_append, List.map_append]
    rfl
  obtain ⟨parent, eq, above⟩ := document.path.components_parent?
    (by rw [divided]; exact List.cons_ne_nil _ _) (by rw [divided, List.getLast?_concat]; simp)
  have parent_absolute : parent.isAbsolute = true := by
    rw [Path.isAbsolute_iff, above, divided, List.dropLast_concat]
    rfl
  have written : parent.text ≠ "" := by
    intro blank
    rw [Path.isAbsolute, blank] at parent_absolute
    cases parent_absolute
  rw [Path.directory, eq]
  dsimp only
  rwa [if_neg written]

end FileSystem

end BuildTargets
