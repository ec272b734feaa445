import BuildTargets.FileSystem.Search
import BuildTargets.Proofs.Path.NormalForm

/-!
# What a search finds

A search finds paths in normal form, each of which leads to a file. Below a directory with an
absolute path it finds absolute paths only.
-/

namespace BuildTargets

/-! ## Results -/

section

variable {α β ε ε' : Type} {f : α → Except ε β} {items : List α} {results : List β}

theorem eq_ok_of_toOption {result : Except ε β} {value : β}
    (h : result.toOption = some value) : result = .ok value := by
  cases result with
  | error cause => cases h
  | ok other => cases h; rfl

theorem mapError_eq_ok {result : Except ε β} {change : ε → ε'} {value : β} :
    result.mapError change = .ok value ↔ result = .ok value := by
  cases result with
  | ok found =>
    constructor
    · rintro ⟨⟩
      rfl
    · rintro ⟨⟩
      rfl
  | error cause =>
    constructor
    · rintro ⟨⟩
    · rintro ⟨⟩

theorem mapM_cons_eq_ok {item : α} (h : (item :: items).mapM f = .ok results) :
    ∃ result later, f item = .ok result ∧ items.mapM f = .ok later ∧ results = result :: later := by
  rw [List.mapM_cons] at h
  simp only [bind, Except.bind, pure, Except.pure] at h
  split at h
  · cases h
  · next result here =>
    split at h
    · cases h
    · next later rest =>
      cases h
      exact ⟨result, later, here, rest, rfl⟩

theorem mem_of_mapM (h : items.mapM f = .ok results) {item : α} (mem : item ∈ items)
    {result : β} (eq : f item = .ok result) : result ∈ results := by
  induction items generalizing results with
  | nil => cases mem
  | cons first items ih =>
    obtain ⟨value, later, here, rest, rfl⟩ := mapM_cons_eq_ok h
    rcases List.mem_cons.1 mem with rfl | mem
    · rw [eq] at here
      cases here
      exact List.mem_cons_self
    · exact List.mem_cons_of_mem _ (ih rest mem)

theorem exists_of_mem_mapM (h : items.mapM f = .ok results) {result : β} (mem : result ∈ results) :
    ∃ item ∈ items, f item = .ok result := by
  induction items generalizing results with
  | nil =>
    cases h
    cases mem
  | cons item items ih =>
    obtain ⟨value, later, here, rest, rfl⟩ := mapM_cons_eq_ok h
    rcases List.mem_cons.1 mem with rfl | mem
    · exact ⟨item, List.mem_cons_self, here⟩
    · obtain ⟨other, mem, eq⟩ := ih rest mem
      exact ⟨other, List.mem_cons_of_mem _ mem, eq⟩

theorem exists_of_mapM_ok (h : items.mapM f = .ok results) :
    ∀ item ∈ items, ∃ result, f item = .ok result := by
  induction items generalizing results with
  | nil => exact List.forall_mem_nil _
  | cons item items ih =>
    obtain ⟨value, later, here, rest, -⟩ := mapM_cons_eq_ok h
    exact List.forall_mem_cons.2 ⟨⟨value, here⟩, ih rest⟩

theorem exists_of_mapM_error {cause : ε} (h : items.mapM f = .error cause) :
    ∃ item ∈ items, f item = .error cause := by
  induction items with
  | nil => cases h
  | cons item items ih =>
    rw [List.mapM_cons] at h
    simp only [bind, Except.bind, pure, Except.pure] at h
    split at h
    · next first =>
      cases h
      exact ⟨item, List.mem_cons_self, first⟩
    · split at h
      · next rest =>
        cases h
        obtain ⟨other, mem, eq⟩ := ih rest
        exact ⟨other, List.mem_cons_of_mem _ mem, eq⟩
      · cases h

theorem exists_mapM (f : α → Except ε β) (h : ∀ item ∈ items, ∃ result, f item = .ok result) :
    ∃ results, items.mapM f = .ok results := by
  cases all : items.mapM f with
  | ok results => exact ⟨results, rfl⟩
  | error cause =>
    obtain ⟨item, mem, fails⟩ := exists_of_mapM_error all
    obtain ⟨result, eq⟩ := h item mem
    cases eq.symm.trans fails

end

/-! ## Searches -/

namespace FileSystem

variable {files : FileSystem} {base path : Path} {patterns excludes : List String}

theorem mem_insertPath {other : Path} {paths : List Path} (h : path ∈ insertPath other paths) :
    path = other ∨ path ∈ paths := by
  induction paths with
  | nil => exact .inl (List.mem_singleton.1 h)
  | cons first rest ih =>
    rw [insertPath] at h
    split at h
    · exact .inr h
    · split at h
      · exact List.mem_cons.1 h
      · rcases List.mem_cons.1 h with rfl | h
        · exact .inr List.mem_cons_self
        · exact (ih h).imp_right (List.mem_cons_of_mem _)

theorem mem_foldr_insertPath {paths : List Path} (h : path ∈ paths.foldr insertPath []) :
    path ∈ paths := by
  induction paths with
  | nil => exact h
  | cons first rest ih =>
    rcases mem_insertPath h with rfl | h
    · exact List.mem_cons_self
    · exact List.mem_cons_of_mem _ (ih h)

def globText (base : Path) (pattern : String) : String :=
  (Path.join ⟨Glob.escape base.text⟩ ⟨pattern⟩).text

/-- What is found comes from one of the patterns, is in normal form and is a file. -/
theorem mem_findFiles {found : List Path} (h : files.findFiles base patterns excludes = .ok found)
    (mem : path ∈ found) :
    ∃ pattern ∈ patterns, ∃ places, files.globPaths (globText base pattern) = .ok places ∧
      (∃ place ∈ places, path = place.normalize) ∧ files.isFile path = true := by
  unfold findFiles at h
  simp only [bind, Except.bind, pure, Except.pure] at h
  split at h
  · cases h
  · split at h
    · cases h
    · next all eq =>
      cases h
      obtain ⟨normal, kept⟩ := List.mem_filter.1 (mem_foldr_insertPath mem)
      obtain ⟨place, flat, rfl⟩ := List.mem_map.1 normal
      obtain ⟨places, each, inside⟩ := List.mem_flatten.1 flat
      obtain ⟨pattern, asked, found⟩ := exists_of_mem_mapM eq each
      refine ⟨pattern, asked, places, ?_, ⟨place, inside, rfl⟩, (Bool.and_eq_true_iff.1 kept).1⟩
      unfold globText
      cases result : files.globPaths (Path.join ⟨Glob.escape base.text⟩ ⟨pattern⟩).text with
      | error cause =>
        rw [result] at found
        cases found
      | ok others =>
        rw [result] at found
        cases found
        rfl

theorem discovery_of_findFiles {cause : Fault}
    (h : files.findFiles base patterns excludes = .error cause) :
    ∃ fault, cause = .discovery fault := by
  unfold findFiles at h
  simp only [bind, Except.bind, pure, Except.pure] at h
  split at h
  · next failed =>
    cases h
    obtain ⟨exclude, -, eq⟩ := exists_of_mapM_error failed
    cases result : Glob.read exclude with
    | ok glob => rw [result] at eq; cases eq
    | error fault => rw [result] at eq; cases eq; exact ⟨_, rfl⟩
  · split at h
    · next failed =>
      cases h
      obtain ⟨pattern, -, eq⟩ := exists_of_mapM_error failed
      cases result : files.globPaths (Path.join ⟨Glob.escape base.text⟩ ⟨pattern⟩).text with
      | ok places => rw [result] at eq; cases eq
      | error fault => rw [result] at eq; cases eq; exact ⟨_, rfl⟩
    · cases h

theorem normalize_of_mem_findFiles {found : List Path}
    (h : files.findFiles base patterns excludes = .ok found) (mem : path ∈ found) :
    path.normalize = path := by
  obtain ⟨-, -, places, -, ⟨place, -, rfl⟩, -⟩ := mem_findFiles h mem
  exact place.normalize_normalize

/-! ## Absolute paths -/

theorem isAbsolute_child (absolute : path.isAbsolute = true) (name : String) :
    (child path name).isAbsolute = true := by
  have relative : path.same ⟨"."⟩ = false := by
    rw [Bool.eq_false_iff]
    intro same
    rw [Path.isAbsolute_iff, Path.same_iff.1 same] at absolute
    cases absolute
  rw [child, relative, if_neg Bool.false_ne_true]
  exact Path.isAbsolute_join absolute _

theorem isAbsolute_foldl_child (names : List String) (absolute : path.isAbsolute = true) :
    (names.foldl child path).isAbsolute = true := by
  induction names generalizing path with
  | nil => exact absolute
  | cons name names ih => exact ih (isAbsolute_child absolute name)

theorem isAbsolute_of_mem_allBelow {place : Path} {name : String} {entry : Entry}
    (absolute : path.isAbsolute = true) (mem : (place, name, entry) ∈ files.allBelow path) :
    place.isAbsolute = true := by
  unfold allBelow at mem
  split at mem
  · obtain ⟨⟨names, _⟩, -, eq⟩ := List.mem_map.1 mem
    cases eq
    exact isAbsolute_foldl_child names absolute
  · cases mem

theorem isAbsolute_of_mem_children {name : String} {place : Path}
    (absolute : path.isAbsolute = true) (mem : (name, place) ∈ files.children path) :
    place.isAbsolute = true := by
  unfold children at mem
  split at mem
  · obtain ⟨⟨other, _⟩, -, eq⟩ := List.mem_map.1 mem
    cases eq
    exact isAbsolute_child absolute _
  · cases mem

theorem isAbsolute_of_mem_follow {globs : List Glob} {found : Path}
    (absolute : path.isAbsolute = true) (mem : found ∈ files.follow globs path) :
    found.isAbsolute = true := by
  fun_induction follow files globs path with
  | case1 path =>
    obtain rfl := List.mem_singleton.1 mem
    exact absolute
  | case2 _ _ _ name _ _ _ _ ih => exact ih (isAbsolute_child absolute name) mem
  | case3 => cases mem
  | case4 =>
    obtain ⟨⟨place, name, entry⟩, below, kept⟩ := List.mem_filterMap.1 mem
    obtain ⟨-, eq⟩ := Option.ite_none_right_eq_some.1 kept
    cases eq
    exact isAbsolute_of_mem_allBelow absolute below
  | case5 _ _ _ _ _ _ _ ih => exact ih absolute mem
  | case6 _ _ _ _ _ _ _ ih =>
    obtain ⟨⟨place, name, entry⟩, below, later⟩ := List.mem_flatMap.1 mem
    exact ih place (isAbsolute_of_mem_allBelow absolute below) (List.mem_ite_nil_right.1 later).2
  | case7 _ _ _ _ _ _ _ named_ih special_ih =>
    rcases List.mem_append.1 mem with named | special
    · obtain ⟨⟨name, place⟩, inside, later⟩ := List.mem_flatMap.1 named
      exact named_ih place (isAbsolute_of_mem_children absolute inside)
        (List.mem_ite_nil_right.1 later).2
    · obtain ⟨name, -, later⟩ := List.mem_flatMap.1 (List.mem_ite_nil_right.1 special).2
      exact special_ih name (Path.isAbsolute_join absolute _) (List.mem_ite_nil_right.1 later).2

theorem isAbsolute_of_mem_globPaths {text : String} {places : List Path} {place : Path}
    (absolute : Path.isAbsolute ⟨text⟩ = true) (h : files.globPaths text = .ok places)
    (mem : place ∈ places) : place.isAbsolute = true := by
  rw [Path.isAbsolute, beq_iff_eq, List.head?_eq_some_iff] at absolute
  obtain ⟨rest, chars⟩ := absolute
  unfold globPaths at h
  simp only [bind, Except.bind, pure, Except.pure, chars] at h
  split at h
  · cases h
  · split at h
    · cases h
    · have start : Path.isAbsolute ⟨"/"⟩ = true := by decide
      split at h
      · cases h
        exact isAbsolute_of_mem_follow start (List.mem_filter.1 mem).1
      · cases h
        exact isAbsolute_of_mem_follow start mem

theorem isAbsolute_escape (absolute : base.isAbsolute = true) :
    Path.isAbsolute ⟨Glob.escape base.text⟩ = true := by
  rw [Path.isAbsolute, beq_iff_eq, List.head?_eq_some_iff] at absolute ⊢
  obtain ⟨rest, chars⟩ := absolute
  rw [Glob.escape, chars]
  exact ⟨_, String.toList_ofList⟩

/-- **What is found below an absolute path has an absolute path.** -/
theorem isAbsolute_of_mem_findFiles {found : List Path} (absolute : base.isAbsolute = true)
    (h : files.findFiles base patterns excludes = .ok found) (mem : path ∈ found) :
    path.isAbsolute = true := by
  obtain ⟨pattern, -, places, globbed, ⟨place, inside, rfl⟩, -⟩ := mem_findFiles h mem
  rw [Path.isAbsolute_normalize]
  exact isAbsolute_of_mem_globPaths (Path.isAbsolute_join (isAbsolute_escape absolute) _) globbed
    inside

end FileSystem

end BuildTargets
