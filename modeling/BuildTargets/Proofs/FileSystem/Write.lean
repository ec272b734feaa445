import BuildTargets.Proofs.FileSystem.Place
import BuildTargets.Proofs.Path.Parent

/-!
# Writing files

A file that was written is read back. Making directories makes them where nothing was, so it takes
nothing away; and a file that can be read can be written again.
-/

namespace BuildTargets.FileSystem

variable {files after : FileSystem} {path : Path} {place : List String}
  {entries : List (String × Entry)}

/-! ## What is asked for -/

theorem lookup_eq_ok {entry : Entry} (h : files.lookup path = .ok (place, entry)) :
    pathFault? path = none ∧
      files.locate files.workingDirectory path.components = .ok place ∧
      files.root.at? place = some entry ∧
        (entry.isFile = true → asksForDirectory path = false) := by
  unfold lookup at h
  split at h
  · cases h
  · next fault =>
    split at h
    · cases h
    · next located =>
      split at h
      · cases h
      · next content there =>
        split at h
        · cases h
        · next asks =>
          cases h
          exact ⟨fault, located, there, fun _ => by simpa using asks⟩
      · next isFile there =>
        cases h
        refine ⟨fault, located, there, fun file => ?_⟩
        cases entry with
        | file content => exact absurd rfl (isFile content)
        | directory entries => cases file

theorem lookup_of_locate {entry : Entry} (fault : pathFault? path = none)
    (located : files.locate files.workingDirectory path.components = .ok place)
    (there : files.root.at? place = some entry)
    (asks : entry.isFile = true → asksForDirectory path = false) :
    files.lookup path = .ok (place, entry) := by
  rw [lookup, fault]
  dsimp only
  rw [located]
  dsimp only
  rw [there]
  cases entry with
  | file content =>
    dsimp only
    rw [if_neg (by simp [asks rfl])]
  | directory entries => rfl

theorem pathFault?_of_append {other : Path} (added : String) (fault : pathFault? path = none)
    (begins : path.text = other.text ++ added) (filled : other.text ≠ "") :
    pathFault? other = none := by
  unfold pathFault? at fault ⊢
  split at fault
  · cases fault
  · next nul =>
    split at fault
    · cases fault
    · split at fault
      · cases fault
      · next short =>
        have nul' : ¬other.text.toList.contains '\x00' = true := by
          rw [List.contains_iff_mem] at nul ⊢
          rw [begins, String.toList_append] at nul
          exact fun mem => nul (List.mem_append_left _ mem)
        have short' : ¬longestPath < other.text.utf8ByteSize := by
          rw [begins, String.utf8ByteSize_append] at short
          omega
        rw [if_neg nul', if_neg filled, if_neg short']

theorem readText_eq_ok {text : String} (h : files.readText path = .ok text) :
    ∃ place content, files.lookup path = .ok (place, .file content) := by
  unfold readText read at h
  split at h
  · cases h
  · next content read =>
    split at read
    · next place _ found => exact ⟨place, _, found⟩
    · cases read
    · cases read

theorem read_of_readText {text : String} (h : files.readText path = .ok text) :
    files.read path = .ok text.toUTF8 := by
  unfold readText at h
  split at h
  · cases h
  · next read =>
    split at h
    · next decoded =>
      cases h
      unfold String.fromUTF8? at decoded
      split at decoded <;> cases decoded
      exact read
    · cases h

theorem openDocument_eq_ok {document : Document} (h : files.openDocument path = .ok document) :
    document.path = path.normalize ∧ files.readText path = .ok document.text := by
  unfold openDocument at h
  split at h
  · next text read =>
    cases h
    exact ⟨rfl, read⟩
  · cases h

theorem lookup_of_openDocument {document : Document} (h : files.openDocument path = .ok document) :
    ∃ place content, files.lookup path = .ok (place, .file content) :=
  readText_eq_ok (openDocument_eq_ok h).2

theorem isDirectory_eq_true (h : files.isDirectory path = true) :
    ∃ place entries, files.lookup path = .ok (place, .directory entries) := by
  unfold isDirectory entry? at h
  split at h
  · next place entry found =>
    cases entry with
    | file content => cases h
    | directory entries => exact ⟨place, entries, found⟩
  · cases h

theorem isFile_eq_true (h : files.isFile path = true) :
    ∃ place content, files.lookup path = .ok (place, .file content) := by
  unfold isFile entry? at h
  split at h
  · next place entry found =>
    cases entry with
    | file content => exact ⟨place, content, found⟩
    | directory entries => cases h
  · cases h

theorem isFile_of_readText {text : String} (h : files.readText path = .ok text) :
    files.isFile path = true := by
  obtain ⟨place, content, found⟩ := readText_eq_ok h
  rw [isFile, entry?, found]
  rfl

theorem contains_of_isFile (h : files.isFile path = true) : files.contains path = true := by
  unfold isFile at h
  unfold contains
  cases there : files.entry? path with
  | none =>
    rw [there] at h
    cases h
  | some entry => rfl

theorem contains_of_readText {text : String} (h : files.readText path = .ok text) :
    files.contains path = true := contains_of_isFile (isFile_of_readText h)

theorem parentOf_eq_ok {name? : Option String}
    (h : files.parentOf path = .ok (place, entries, name?)) :
    pathFault? path = none ∧
      files.locate files.workingDirectory path.components.dropLast = .ok place ∧
      files.root.at? place = some (.directory entries) ∧
      ∀ name ∈ name?, path.components.getLast? = some (.name name) ∧
        name.utf8ByteSize ≤ longestName := by
  unfold parentOf at h
  split at h
  · cases h
  · next fault =>
    split at h
    · cases h
    · next located =>
      split at h
      · next there =>
        split at h
        · next name last =>
          split at h
          · cases h
          · next short =>
            cases h
            exact ⟨fault, located, there, by rintro _ ⟨⟩; exact ⟨last, Nat.not_lt.1 short⟩⟩
        · cases h
          exact ⟨fault, located, there, by rintro _ ⟨⟩⟩
      · cases h
      · cases h

/-- A path names the entry of its last name in the directory that the rest leads to. -/
theorem placeFrom_of_parent {name : String} (last : path.components.getLast? = some (.name name))
    (located : files.locate files.workingDirectory path.components.dropLast = .ok place) :
    placeFrom files.workingDirectory path.components = place ++ [name] := by
  obtain ⟨before, components⟩ := List.getLast?_eq_some_iff.1 last
  rw [components, List.dropLast_concat] at located
  rw [components, placeFrom_append, ← locate_eq_placeFrom located]
  rfl

/-! ## Changes in one directory -/

/-- What is put in a directory where no directory was takes nothing away. -/
theorem extends_put (there : files.root.at? place = some (.directory entries)) {name : String}
    (free : (entries.lookup name).any Entry.isDirectory = false) (new : Entry) :
    files.Extends { files with root := files.root.put new (place ++ [name]) } := by
  have below : ∀ rest, (files.root.at? (place ++ [name] ++ rest)).isSome → rest = [] := by
    intro rest held
    rw [Entry.at?_append, Entry.at?_concat there] at held
    match inner : entries.lookup name with
    | none => simp [inner] at held
    | some (.directory _) => simp [inner, Entry.isDirectory] at free
    | some (.file content) =>
      rw [inner, Option.bind_some] at held
      refine Decidable.byContradiction fun filled => ?_
      rw [Entry.at?_file content filled] at held
      cases held
  refine ⟨rfl, fun other held => ?_, fun other held => ?_⟩
  · by_cases inside : place ++ [name] <+: other
    · obtain ⟨rest, rfl⟩ := inside
      obtain rfl := below rest held
      show (Entry.at? (files.root.put new (place ++ [name])) _).isSome
      rw [Entry.at?_put there]
      rfl
    · show (Entry.at? (files.root.put new (place ++ [name])) _).isSome
      rw [← Option.isSome_map, Entry.isDirectory_at?_put there name new inside, Option.isSome_map]
      exact held
  · by_cases inside : place ++ [name] <+: other
    · obtain ⟨rest, rfl⟩ := inside
      have held' : (files.root.at? (place ++ [name] ++ rest)).isSome := by
        match files.root.at? (place ++ [name] ++ rest), held with
        | some _, _ => rfl
      obtain rfl := below rest held'
      rw [List.append_nil, Entry.at?_concat there, free] at held
      cases held
    · have same := Entry.isDirectory_at?_put there name new inside
      match before : files.root.at? other, held with
      | some entry, held =>
        rw [before, Option.map_some, Option.map_eq_some_iff] at same
        obtain ⟨entry', there', kind⟩ := same
        show (Entry.at? (files.root.put new (place ++ [name])) other).any _ = true
        rw [there', Option.any_some, kind]
        exact held

theorem write_eq_ok {content : ByteArray} (h : files.write path content = (.ok (), after)) :
    ∃ place entries name, files.parentOf path = .ok (place, entries, some name) ∧
      asksForDirectory path = false ∧ (entries.lookup name).any Entry.isDirectory = false ∧
      after = { files with root := files.root.put (.file content) (place ++ [name]) } := by
  unfold write at h
  split at h
  · cases h
  · cases h
  · next place entries name parent =>
    split at h
    · cases h
    · next free =>
      cases h
      simp only [Bool.or_eq_true, not_or, Bool.not_eq_true] at free
      exact ⟨place, entries, name, parent, free.1, free.2, rfl⟩

theorem write_eq_error {content : ByteArray} {cause : FileFault}
    (h : files.write path content = (.error cause, after)) : after = files := by
  unfold write at h
  split at h
  · cases h; rfl
  · cases h; rfl
  · split at h <;> cases h
    rfl

/-- **A file that was written is read back.** -/
theorem lookup_write {content : ByteArray} (h : files.write path content = (.ok (), after)) :
    ∃ place, after.lookup path = .ok (place, .file content) := by
  obtain ⟨place, entries, name, parent, asks, free, rfl⟩ := write_eq_ok h
  obtain ⟨fault, located, there, named⟩ := parentOf_eq_ok parent
  obtain ⟨last, short⟩ := named name rfl
  obtain ⟨before, components⟩ := List.getLast?_eq_some_iff.1 last
  rw [components, List.dropLast_concat] at located
  have located' := (extends_put there free (.file content)).locate located
  obtain ⟨entries', there', held⟩ := Entry.exists_at?_put there name (.file content)
  refine ⟨place ++ [name], lookup_of_locate fault ?_ ?_ fun _ => asks⟩
  · rw [components, locate_append]
    dsimp only
    rw [located']
    exact locate_name there' short (by rw [held]; rfl)
  · exact Entry.at?_put_self there name (.file content)

theorem readText_write {text : String} (h : files.write path text.toUTF8 = (.ok (), after)) :
    after.readText path = .ok text := by
  obtain ⟨place, found⟩ := lookup_write h
  have decoded : String.fromUTF8? text.toUTF8 = some text := dif_pos text.isValidUTF8
  rw [readText, read, found]
  dsimp only
  rw [decoded]

/-! ## Making directories -/

theorem makeDirectory_eq_ok (h : files.makeDirectory path = (.ok (), after)) :
    ∃ place entries name, files.parentOf path = .ok (place, entries, some name) ∧
      entries.lookup name = none ∧
      after = { files with root := files.root.put .empty (place ++ [name]) } := by
  unfold makeDirectory at h
  split at h
  · cases h
  · cases h
  · next place entries name parent =>
    split at h
    · cases h
    · next free =>
      cases h
      exact ⟨place, entries, name, parent, Option.not_isSome_iff_eq_none.1 free, rfl⟩

theorem makeDirectory_eq_error {cause : FileFault}
    (h : files.makeDirectory path = (.error cause, after)) : after = files := by
  unfold makeDirectory at h
  split at h
  · cases h; rfl
  · cases h; rfl
  · split at h <;> cases h
    rfl

/-- Nothing happened, or there was nothing at the place and there still is nothing. -/
def Spares (place : List String) (before after : FileSystem) : Prop :=
  after = before ∨ after.workingDirectory = before.workingDirectory ∧
    before.root.at? place = none ∧ after.root.at? place = none

theorem Spares.workingDirectory {before after : FileSystem} (h : Spares place before after) :
    after.workingDirectory = before.workingDirectory := by
  rcases h with rfl | ⟨same, -⟩
  · rfl
  · exact same

theorem Spares.trans {before between after : FileSystem} (first : Spares place before between)
    (second : Spares place between after) : Spares place before after := by
  rcases first with rfl | ⟨same, none, none'⟩
  · exact second
  · rcases second with rfl | ⟨same', -, none''⟩
    · exact .inr ⟨same, none, none'⟩
    · exact .inr ⟨same'.trans same, none, none''⟩

/-- The place lies below where the path leads. -/
def Below (files : FileSystem) (place : List String) (path : Path) : Prop :=
  ∃ names, names ≠ [] ∧ place = placeFrom files.workingDirectory path.components ++ names

theorem spares_makeDirectory {result : Except FileFault Unit}
    (h : files.makeDirectory path = (result, after)) (below : files.Below place path) :
    Spares place files after := by
  match result, h with
  | .error cause, h => exact .inl (makeDirectory_eq_error h)
  | .ok (), h =>
    obtain ⟨names, filled, rfl⟩ := below
    obtain ⟨parent, entries, name, parentOf, free, rfl⟩ := makeDirectory_eq_ok h
    obtain ⟨-, located, there, named⟩ := parentOf_eq_ok parentOf
    rw [placeFrom_of_parent (named name rfl).1 located]
    refine .inr ⟨rfl, ?_, ?_⟩
    · rw [Entry.at?_append, Entry.at?_concat there, free]
      rfl
    · show Entry.at? (files.root.put .empty (parent ++ [name])) _ = none
      rw [Entry.at?_put there, Entry.at?_empty filled]

/-- Directories that are made above a place take nothing away from there. -/
theorem spares_makeFirst {paths : List Path} {result : Except FileFault Unit}
    (h : files.makeFirst paths = (result, after))
    (below : ∀ path ∈ paths, path.text = "" ∨ files.Below place path) :
    Spares place files after := by
  induction paths generalizing files result after with
  | nil => cases h; exact .inl rfl
  | cons path above ih =>
    have made : ∀ {files' : FileSystem} {result' : Except FileFault Unit},
        files.makeDirectory path = (result', files') → path.text ≠ "" →
          Spares place files files' := fun make filled =>
      spares_makeDirectory make ((below path List.mem_cons_self).resolve_left filled)
    rw [makeFirst] at h
    split at h
    · cases h; exact .inl rfl
    · next filled =>
      split at h
      · next make => cases h; exact made make filled
      · next between make =>
        have first := made make filled
        obtain rfl := makeDirectory_eq_error make
        split at h
        · next later =>
          cases h
          exact ih later fun other mem => below other (List.mem_cons_of_mem _ mem)
        · next above' later =>
          have second := ih later fun other mem => below other (List.mem_cons_of_mem _ mem)
          have below' : above'.Below place path := by
            have := (below path List.mem_cons_self).resolve_left filled
            rwa [Below, ← second.workingDirectory] at this
          split at h
          · next make' =>
            cases h
            exact second.trans (spares_makeDirectory make' below')
          · next make' =>
            have third := spares_makeDirectory make' below'
            split at h <;> cases h <;> exact second.trans third
      · next make =>
        have first := made make filled
        split at h <;> cases h <;> exact first

/-! ## Writing below directories that are made -/

theorem exists_names {components : List Path.Component} (up : .up ∉ path.components)
    (behind : components ⊆ path.components.tail) :
    ∃ names : List String, components = names.map .name := by
  induction components with
  | nil => exact ⟨[], rfl⟩
  | cons component components ih =>
    obtain ⟨names, eq⟩ := ih fun other mem => behind (List.mem_cons_of_mem _ mem)
    have mem := behind List.mem_cons_self
    rcases (Path.isStep_of_mem_tail_components mem).cases with rfl | ⟨name, rfl, -⟩
    · exact absurd (List.mem_of_mem_tail mem) up
    · exact ⟨name :: names, by rw [eq]; rfl⟩

/-- One path is written as a beginning of another and has some of its first components. -/
structure Above (path other : Path) : Prop where
  components : ∃ count < path.components.length, other.components = path.components.take count
  text : ∃ stop, other.text = String.ofList (path.text.toList.take stop)
  empty : other.components = [] → other.text = ""

theorem above_of_mem_ancestors {parent other : Path} (filled : path.components ≠ [])
    (root : path.components.getLast? ≠ some .root) (eq : path.parent? = some parent)
    (mem : other ∈ ancestors parent) : Above path other := by
  have length : 0 < path.components.length := List.length_pos_iff.2 filled
  have pieces : path.components.length = path.pieces.length := by
    rw [Path.components, List.length_map]
  obtain rfl : path.stretch path.pieces.dropLast = parent := by
    rw [Path.parent?_eq_stretch filled root] at eq
    exact Option.some.inj eq
  rw [List.dropLast_eq_take, ancestors, List.mem_cons, List.mem_map] at mem
  rcases mem with rfl | ⟨count, -, rfl⟩
  · exact ⟨⟨_, by omega, Path.components_stretch_take _ _⟩, Path.text_stretch_take _ _,
      Path.text_stretch_take_of_nil⟩
  · refine ⟨⟨min count (path.pieces.length - 1), by omega, ?_⟩, ?_, Path.text_stretch_take_of_nil⟩
    · rw [Path.components_stretch_take, Path.components_stretch_take, List.take_take]
    · obtain ⟨stop, text⟩ := path.text_stretch_take (path.pieces.length - 1)
      obtain ⟨stop', text'⟩ :=
        (path.stretch (path.pieces.take (path.pieces.length - 1))).text_stretch_take count
      rw [text, String.toList_ofList, List.take_take] at text'
      exact ⟨_, text'⟩

theorem Above.below {other : Path} (h : Above path other) (up : .up ∉ path.components) :
    other.text = "" ∨ files.Below (placeFrom files.workingDirectory path.components) other := by
  by_cases filled : other.components = []
  · exact .inl (h.empty filled)
  · obtain ⟨count, short, eq⟩ := h.components
    have begun : count ≠ 0 := by
      rintro rfl
      exact filled eq
    have behind : path.components.drop count ⊆ path.components.tail := by
      rw [← List.drop_one]
      exact List.drop_subset_drop_left _ (Nat.one_le_iff_ne_zero.2 begun)
    obtain ⟨names, names_eq⟩ := exists_names up behind
    refine .inr ⟨names, ?_, ?_⟩
    · rintro rfl
      exact absurd (List.drop_eq_nil_iff.1 names_eq) (Nat.not_le.2 short)
    · rw [eq, ← placeFrom_names, ← names_eq, ← placeFrom_append, List.take_append_drop]

theorem Above.pathFault? {other : Path} (h : Above path other) (fault : pathFault? path = none)
    (filled : other.text ≠ "") : FileSystem.pathFault? other = none := by
  obtain ⟨stop, text⟩ := h.text
  refine pathFault?_of_append (String.ofList (path.text.toList.drop stop)) fault ?_ filled
  rw [text, ← String.ofList_append, List.take_append_drop, String.ofList_toList]

theorem Above.isDirectory {other : Path} (h : Above path other)
    (fault : FileSystem.pathFault? path = none)
    (located : files.locate files.workingDirectory path.components = .ok place) :
    other.text = "" ∨ files.isDirectory other = true := by
  by_cases empty : other.text = ""
  · exact .inl empty
  · right
    obtain ⟨count, short, eq⟩ := h.components
    have begun : count ≠ 0 := by
      rintro rfl
      exact empty (h.empty eq)
    rw [← List.take_append_drop count path.components] at located
    obtain ⟨between, first, second⟩ := locate_append_eq_ok located
    obtain ⟨step, rest, next⟩ := List.exists_cons_of_ne_nil
      (fun none => absurd (List.drop_eq_nil_iff.1 none) (Nat.not_le.2 short))
    have behind : step ∈ path.components.tail := by
      rw [← List.drop_one]
      apply List.drop_subset_drop_left _ (Nat.one_le_iff_ne_zero.2 begun)
      rw [next]
      exact List.mem_cons_self
    have isStep := Path.isStep_of_mem_tail_components behind
    rw [next] at second
    obtain ⟨entries, there, -⟩ := locate_step_eq_ok second
      (isStep.cases.imp_right fun ⟨name, eq, _⟩ => ⟨name, eq⟩)
    have lookup : files.lookup other = .ok (between, .directory entries) := by
      refine lookup_of_locate (h.pathFault? fault empty) ?_ there (fun file => by cases file)
      rw [eq]
      exact first
    rw [FileSystem.isDirectory, entry?, lookup]
    rfl

theorem writeBelow_eq {parent : Path} {content : ByteArray} (eq : path.parent? = some parent) :
    files.writeBelow path content =
      match files.makeDirectories parent with
      | (.error cause, files) => (.error cause, files)
      | (.ok (), files) => files.write path content := by
  rw [writeBelow, eq]
  rfl

theorem makeFirst_of_isDirectory {paths : List Path}
    (there : ∀ path ∈ paths, path.text = "" ∨ files.isDirectory path = true) :
    files.makeFirst paths = (.ok (), files) := by
  induction paths with
  | nil => rfl
  | cons path above ih =>
    have above := ih fun other mem => there other (List.mem_cons_of_mem _ mem)
    rw [makeFirst]
    by_cases empty : path.text = ""
    · rw [if_pos empty]
    · have directory := (there path List.mem_cons_self).resolve_left empty
      obtain ⟨cause, make⟩ : ∃ cause, files.makeDirectory path = (.error cause, files) := by
        match make : files.makeDirectory path with
        | (.error cause, after) => exact ⟨cause, by rw [makeDirectory_eq_error make]⟩
        | (.ok (), after) =>
          obtain ⟨place, entries, name, parentOf, free, -⟩ := makeDirectory_eq_ok make
          obtain ⟨-, located, there, named⟩ := parentOf_eq_ok parentOf
          obtain ⟨found, held, lookup⟩ := isDirectory_eq_true directory
          obtain ⟨before, components⟩ := List.getLast?_eq_some_iff.1 (named name rfl).1
          have followed := (lookup_eq_ok lookup).2.1
          rw [components] at located followed
          rw [List.dropLast_concat] at located
          obtain ⟨between, first, last⟩ := locate_append_eq_ok followed
          cases located.symm.trans first
          obtain ⟨entries', there', held⟩ := locate_step_eq_ok last (.inr ⟨name, rfl⟩)
          cases there.symm.trans there'
          have := (held name rfl).2
          rw [free] at this
          cases this
      rw [if_neg empty, make]
      cases cause <;> simp [above, make, directory]

theorem readText_writeBelow {text : String}
    (h : files.writeBelow path text.toUTF8 = (.ok (), after)) : after.readText path = .ok text := by
  unfold writeBelow at h
  split at h
  · cases h
  · exact readText_write h

section Below

variable {content : ByteArray} {name : String}
  (last : path.components.getLast? = some (.name name))

include last

theorem exists_parent : ∃ parent, path.parent? = some parent ∧
    ∀ other ∈ ancestors parent, Above path other := by
  have filled : path.components ≠ [] := by
    intro none
    rw [none] at last
    cases last
  have root : path.components.getLast? ≠ some .root := by
    rw [last]
    exact fun eq => by cases eq
  obtain ⟨parent, eq, -⟩ := Path.components_parent? filled root
  exact ⟨parent, eq, fun other => above_of_mem_ancestors filled root eq⟩

/-- Where a file could not be written, the file that was there is still there, or there still is
none. -/
theorem spares_writeBelow {cause : FileFault} (up : .up ∉ path.components)
    (h : files.writeBelow path content = (.error cause, after)) :
    Spares (placeFrom files.workingDirectory path.components) files after := by
  obtain ⟨parent, eq, above⟩ := exists_parent last
  have below : ∀ other ∈ ancestors parent, other.text = "" ∨
      files.Below (placeFrom files.workingDirectory path.components) other :=
    fun other mem => (above other mem).below up
  rw [writeBelow_eq eq] at h
  split at h
  · next make =>
    cases h
    exact spares_makeFirst make below
  · next make =>
    obtain rfl := write_eq_error h
    exact spares_makeFirst make below

/-- A file that can be read can be written again. -/
theorem writeBelow_of_readText {text : String} (h : files.readText path = .ok text)
    (content : ByteArray) : ∃ after, files.writeBelow path content = (.ok (), after) := by
  obtain ⟨place, held, found⟩ := readText_eq_ok h
  obtain ⟨fault, located, there, asks⟩ := lookup_eq_ok found
  obtain ⟨parent, eq, above⟩ := exists_parent last
  have directories : ∀ other ∈ ancestors parent, other.text = "" ∨ files.isDirectory other = true :=
    fun other mem => (above other mem).isDirectory fault located
  have made : files.makeDirectories parent = (.ok (), files) := makeFirst_of_isDirectory directories
  obtain ⟨before, components⟩ := List.getLast?_eq_some_iff.1 last
  rw [components] at located
  obtain ⟨directory, first, second⟩ := locate_append_eq_ok located
  obtain ⟨entries, there', held'⟩ := locate_step_eq_ok second (.inr ⟨name, rfl⟩)
  obtain ⟨short, isSome⟩ := held' name rfl
  have leads : place = directory ++ [name] := locate_eq_placeFrom second
  rw [leads, Entry.at?_concat there'] at there
  have parentOf : files.parentOf path = .ok (directory, entries, some name) := by
    rw [FileSystem.parentOf, fault, components, List.dropLast_concat, List.getLast?_concat]
    dsimp only
    rw [first]
    dsimp only
    rw [there']
    dsimp only
    rw [if_neg (Nat.not_lt.2 short)]
  have free : ¬(asksForDirectory path || (entries.lookup name).any Entry.isDirectory) = true := by
    simp [asks rfl, there, Entry.isDirectory]
  refine ⟨{ files with root := files.root.put (.file content) (directory ++ [name]) }, ?_⟩
  rw [writeBelow_eq eq, made]
  dsimp only
  rw [write, parentOf]
  dsimp only
  rw [if_neg free]

end Below

theorem Spares.contains
    (h : Spares (placeFrom files.workingDirectory path.components) files after) :
    after = files ∨ after.contains path = false ∧ files.contains path = false := by
  have missing : ∀ {tree : FileSystem}, tree.workingDirectory = files.workingDirectory →
      tree.root.at? (placeFrom files.workingDirectory path.components) = none →
        tree.contains path = false := by
    intro tree same none
    rw [FileSystem.contains, entry?]
    split
    · next found =>
      obtain ⟨-, located, there, -⟩ := lookup_eq_ok found
      rw [locate_eq_placeFrom located, same, none] at there
      cases there
    · rfl
  refine h.imp_right fun ⟨same, before, after⟩ => ?_
  exact ⟨missing same after, missing rfl before⟩

end BuildTargets.FileSystem
