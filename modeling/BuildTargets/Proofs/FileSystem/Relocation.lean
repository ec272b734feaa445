import BuildTargets.Proofs.FileSystem.Canonical
import BuildTargets.Proofs.FileSystem.Held

/-!
# Searching in another place

What is found below a directory depends on the files that are there and not on what the directory is
called or how it is written. The globs of a pattern lead along names below the directory, and a
search finds the files at the end of such names, whichever directory the names begin in.
-/

namespace BuildTargets

open BuildTargets.Path

/-! ## Globs along names -/

namespace Glob

/-- Globs, one for each component of a pattern, lead along names. -/
inductive Along : List Glob → List String → Prop
  | nil : Along [] []
  | blank {glob : Glob} {globs : List Glob} {names : List String}
      (literal : glob.literal? = some "") (later : Along globs names) (filled : names ≠ []) :
      Along (glob :: globs) names
  | name {glob : Glob} {globs : List Glob} {name : String} {names : List String}
      (literal : glob.literal? = some name) (later : Along globs names) :
      Along (glob :: globs) (name :: names)
  | matched {glob : Glob} {globs : List Glob} {name : String} {names : List String}
      (literal : glob.literal? = none) (shallow : glob.isDeep = false)
      (matched : glob.matchesPath name = true) (later : Along globs names) :
      Along (glob :: globs) (name :: names)
  | deep {glob next : Glob} {globs : List Glob} {names : List String} (deep : glob.isDeep = true)
      (deep' : next.isDeep = true) (later : Along (next :: globs) names) :
      Along (glob :: next :: globs) names
  | through {glob next : Glob} {globs : List Glob} {above names : List String}
      (deep : glob.isDeep = true) (shallow : next.isDeep = false) (filled : above ≠ [])
      (matched : next.matchesPath (above.getLast?.getD "") = true) (later : Along globs names) :
      Along (glob :: next :: globs) (above ++ names)

def LeadsAlong (pattern : String) (names : List String) : Prop :=
  ¬ForDirectories pattern ∧ ∃ globs, ReadAs pattern globs ∧ Along globs names

theorem literal?_of_isDeep {glob : Glob} (deep : glob.isDeep = true) : glob.literal? = none := by
  cases literal : glob.literal? with
  | none => rfl
  | some name =>
    rw [isDeep, List.contains_iff_mem, tokens_of_literal? literal] at deep
    obtain ⟨c, -, token⟩ := List.mem_map.1 deep
    cases token

theorem ReadAs.descends {pattern : String} {globs : List Glob} (undotted : Undotted pattern)
    (h : ReadAs pattern globs) : ∀ glob ∈ globs, glob.Descends := by
  intro glob mem
  obtain ⟨part, inside, read⟩ := exists_of_mem_mapM h.parts mem
  have inside : part ∈ Text.split '/' pattern.toList := by
    unfold Text.splitEnded at inside
    split at inside
    · next parts reversed =>
      rw [← List.mem_reverse, reversed]
      exact List.mem_cons_of_mem _ (List.mem_reverse.1 inside)
    · exact List.mem_reverse.1 (List.mem_reverse.1 inside)
  exact descends_of_read (Text.not_mem_of_mem_split inside) (undotted.head part inside) read

end Glob

namespace FileSystem

open Glob

variable {files : FileSystem} {base path found : Path} {place names more : List String}
  {tree entry : Entry} {globs : List Glob} {patterns excludes : List String}

/-! ## Globs followed along names -/

theorem exists_of_mem_children {name : String} (mem : (name, found) ∈ files.children path) :
    ∃ entry inner, files.entry? path = some entry ∧ ([name], inner) ∈ entry.descendants ∧
      found = child path name := by
  unfold children at mem
  split at mem
  · next entry held =>
    obtain ⟨⟨other, inner⟩, inside, eq⟩ := List.mem_map.1 mem
    cases eq
    refine ⟨entry, inner, held, ?_, rfl⟩
    cases entry with
    | file content => cases inside
    | directory entries => exact Entry.mem_descendantsOf_of_mem inside
  · cases mem

/-- A glob for a name or for nothing leads on if that is there. -/
theorem mem_follow_of_literal {glob : Glob} {name : String} (literal : glob.literal? = some name)
    (dot : name ≠ ".") (dots : name ≠ "..")
    (there : files.lookup (child path name) = .ok (place, entry))
    (mem : found ∈ files.follow globs (child path name)) :
    found ∈ files.follow (glob :: globs) path := by
  rw [follow.eq_def]
  dsimp only
  rw [literal]
  dsimp only
  refine List.mem_ite_nil_right.2 ⟨?_, mem⟩
  rw [if_neg (not_or.2 ⟨dot, dots⟩), contains, entry?_of_lookup there]
  rfl

theorem mem_follow_of_matches {glob : Glob} {name : String} {next : Path}
    (literal : glob.literal? = none) (shallow : glob.isDeep = false)
    (matched : glob.matchesPath name = true) (inside : (name, next) ∈ files.children path)
    (mem : found ∈ files.follow globs next) : found ∈ files.follow (glob :: globs) path := by
  rw [follow.eq_def]
  dsimp only
  rw [literal]
  dsimp only
  rw [shallow, if_neg Bool.false_ne_true]
  exact List.mem_append_left _
    (List.mem_flatMap.2 ⟨_, inside, List.mem_ite_nil_right.2 ⟨matched, mem⟩⟩)

/-- `**` leads on from everything below that the next glob describes. -/
theorem mem_follow_of_below {glob next : Glob} {name : String} {below : Path}
    (deep : glob.isDeep = true) (shallow : next.isDeep = false)
    (matched : next.matchesPath name = true) (inside : (below, name, entry) ∈ files.allBelow path)
    (mem : found ∈ files.follow globs below) :
    found ∈ files.follow (glob :: next :: globs) path := by
  rw [follow.eq_def]
  dsimp only
  rw [literal?_of_isDeep deep]
  dsimp only
  rw [if_pos deep, shallow, if_neg Bool.false_ne_true]
  exact List.mem_flatMap.2 ⟨_, inside, List.mem_ite_nil_right.2 ⟨matched, mem⟩⟩

theorem follow_deep_deep {glob next : Glob} (deep : glob.isDeep = true)
    (deep' : next.isDeep = true) :
    files.follow (glob :: next :: globs) path = files.follow (next :: globs) path := by
  rw [follow.eq_def]
  dsimp only
  rw [literal?_of_isDeep deep]
  dsimp only
  rw [if_pos deep, if_pos deep']

/-- Globs lead to a spelling of further names below a directory, and along these names if there is a
file. -/
structure Arrives (base : Path) (tree : Entry) (names : List String) (globs : List Glob)
    (found : Path) (more : List String) : Prop where
  isName : ∀ name ∈ more, IsName name
  respells : Respells found ((names ++ more).foldl child base)
  along : (tree.at? (names ++ more)).any Entry.isFile = true → Along globs more

/-- Names that are followed first are put in front. -/
theorem Arrives.behind {added : List String} {later : List Glob}
    (h : Arrives base tree (names ++ added) later found more)
    (isName : ∀ name ∈ added, IsName name)
    (along : (tree.at? (names ++ (added ++ more))).any Entry.isFile = true → Along later more →
      Along globs (added ++ more)) : Arrives base tree names globs found (added ++ more) where
  isName := List.forall_mem_append.2 ⟨isName, h.isName⟩
  respells := by
    rw [← List.append_assoc]
    exact h.respells
  along isFile := along isFile (h.along (by rwa [List.append_assoc]))

section

variable (holds : files.HoldsTree base tree) (only : base.OnlyNames)

include holds only

/-- What is below a spelling of names is below these names in the tree. -/
theorem HoldsTree.below {below : List String} {inner : Entry} (isName : ∀ name ∈ names, IsName name)
    (respells : Respells path (names.foldl child base)) (held : files.entry? path = some entry)
    (mem : (below, inner) ∈ entry.descendants) :
    (∀ name ∈ below, IsName name) ∧ below ≠ [] ∧ tree.at? (names ++ below) = some inner ∧
      Respells (below.foldl child path) ((names ++ below).foldl child base) := by
  obtain ⟨place, found⟩ := lookup_of_entry? held
  have there := holds.at?_of_lookup only isName respells found
  have inside := Entry.mem_descendants_append there mem
  have isName' := (List.forall_mem_append.1 (holds.proper.isName _ inside)).2
  refine ⟨isName', Entry.ne_nil_of_mem_descendants mem, holds.proper.once _ inside, ?_⟩
  rw [List.foldl_append]
  exact respells.foldl_child isName'

/-- A glob for nothing in front asks for a directory, so a file is further below. -/
theorem Arrives.behind_blank {glob : Glob} (h : Arrives base tree names globs found more)
    (isName : ∀ name ∈ names, IsName name) (respells : Respells path (names.foldl child base))
    (there : files.contains (child path "") = true) (literal : glob.literal? = some "") :
    Arrives base tree names (glob :: globs) found more where
  isName := h.isName
  respells := h.respells
  along isFile := by
    refine .blank literal (h.along isFile) ?_
    rintro rfl
    obtain ⟨entry, opened⟩ := Option.isSome_iff_exists.1 there
    obtain ⟨place, opened⟩ := lookup_of_entry? opened
    rw [List.append_nil, holds.at?_of_lookup only isName respells.blank opened] at isFile
    have asks := (lookup_eq_ok opened).2.2.2 isFile
    rw [asksForDirectory_child_blank respells.bare] at asks
    cases asks

/-- What globs lead to is a spelling of names that they lead along, where a file is at the end of
the names. -/
theorem exists_arrives (isName : ∀ name ∈ names, IsName name)
    (respells : Respells path (names.foldl child base)) (descends : ∀ glob ∈ globs, glob.Descends)
    (mem : found ∈ files.follow globs path) : ∃ more, Arrives base tree names globs found more := by
  fun_induction follow files globs path generalizing names with
  | case1 path =>
    obtain rfl := List.mem_singleton.1 mem
    exact ⟨[], List.forall_mem_nil _, by rwa [List.append_nil], fun _ => .nil⟩
  | case2 glob globs path name literal next isThere held =>
    rename_i ih
    rw [List.forall_mem_cons] at descends
    rcases descends.1.literal name literal with rfl | valid
    · have there : files.contains (child path "") = true := by simpa [isThere] using held
      obtain ⟨more, arrives⟩ := ih isName respells.blank descends.2 mem
      exact ⟨more, arrives.behind_blank holds only isName respells there literal⟩
    · have named : Respells next ((names ++ [name]).foldl child base) := by
        rw [List.foldl_concat]
        exact respells.child_name valid
      have isName' := List.forall_mem_append.2 ⟨isName, List.forall_mem_singleton.2 valid⟩
      obtain ⟨more, arrives⟩ := ih isName' named descends.2 mem
      exact ⟨name :: more, arrives.behind (List.forall_mem_singleton.2 valid)
        fun _ => .name literal⟩
  | case3 => cases mem
  | case4 glob path literal deep =>
    obtain ⟨⟨place, name, entry⟩, inside, kept⟩ := List.mem_filterMap.1 mem
    obtain ⟨isDirectory, eq⟩ := Option.ite_none_right_eq_some.1 kept
    cases eq
    obtain ⟨held, below, there, descendant, rfl, rfl⟩ := mem_allBelow_iff.1 inside
    obtain ⟨valid, filled, at_, spelled⟩ := holds.below only isName respells there descendant
    refine ⟨below, valid, spelled, fun isFile => ?_⟩
    rw [at_] at isFile
    cases entry with
    | file content => cases isDirectory
    | directory entries => cases isFile
  | case5 glob path literal deep next later deep' ih =>
    rw [List.forall_mem_cons] at descends
    obtain ⟨more, arrives⟩ := ih isName respells descends.2 mem
    exact ⟨more, arrives.isName, arrives.respells, fun isFile =>
      .deep deep deep' (arrives.along isFile)⟩
  | case6 glob path literal deep next later shallow ih =>
    obtain ⟨⟨place, name, entry⟩, inside, kept⟩ := List.mem_flatMap.1 mem
    obtain ⟨matched, mem⟩ := List.mem_ite_nil_right.1 kept
    obtain ⟨held, below, there, descendant, rfl, rfl⟩ := mem_allBelow_iff.1 inside
    obtain ⟨valid, filled, -, spelled⟩ := holds.below only isName respells there descendant
    rw [List.forall_mem_cons, List.forall_mem_cons] at descends
    obtain ⟨more, arrives⟩ := ih _ (List.forall_mem_append.2 ⟨isName, valid⟩) spelled
      descends.2.2 mem
    exact ⟨below ++ more, arrives.behind valid fun _ =>
      .through deep (Bool.eq_false_iff.2 shallow) filled matched⟩
  | case7 glob globs path literal shallow named special named_ih =>
    rw [List.forall_mem_cons] at descends
    rcases List.mem_append.1 mem with mem | mem
    · obtain ⟨⟨name, place⟩, inside, kept⟩ := List.mem_flatMap.1 mem
      obtain ⟨matched, mem⟩ := List.mem_ite_nil_right.1 kept
      obtain ⟨entry, inner, there, descendant, rfl⟩ := exists_of_mem_children inside
      obtain ⟨valid, -, -, spelled⟩ := holds.below only isName respells there descendant
      obtain ⟨more, arrives⟩ := named_ih _ (List.forall_mem_append.2 ⟨isName, valid⟩) spelled
        descends.2 mem
      exact ⟨name :: more, arrives.behind valid fun _ =>
        .matched literal (Bool.eq_false_iff.2 shallow) matched⟩
    · -- Only a glob that begins with a dot leads to `.` and `..`.
      have dot := (List.mem_ite_nil_right.1 mem).1
      rw [Bool.and_eq_true, decide_eq_true_iff] at dot
      exact absurd dot.1 descends.1.head

/-- The first of some names that lead to something in the tree can be followed from a spelling. -/
theorem HoldsTree.step {name : String} (respells : Respells path (names.foldl child base))
    (there : tree.at? (names ++ name :: more) = some entry) :
    IsName name ∧ Respells (child path name) ((names ++ [name]).foldl child base) ∧
      tree.at? (names ++ [name] ++ more) = some entry ∧
      (∃ place inner, files.lookup (child path name) = .ok (place, inner)) ∧
      (name, child path name) ∈ files.children path := by
  have isName : IsName name :=
    (List.forall_mem_append.1 (holds.isName there)).2 name List.mem_cons_self
  obtain ⟨place, entries, held, above⟩ := holds.lookup_above only respells there
  rw [List.append_cons] at there
  obtain ⟨inner, next, -⟩ := Entry.exists_at?_of_append there
  obtain ⟨place', found⟩ := holds.lookup_child respells next
  refine ⟨isName, ?_, there, ⟨place', inner, found⟩, mem_children_of_lookup held ?_⟩
  · rw [List.foldl_concat]
    exact respells.child_name isName
  · rw [← Entry.at?_concat above, next]
    rfl

/-- Where globs lead along names to something, they lead to a spelling of these names. -/
theorem exists_of_along (along : Along globs more)
    (respells : Respells path (names.foldl child base))
    (there : tree.at? (names ++ more) = some entry) :
    ∃ found ∈ files.follow globs path, Respells found ((names ++ more).foldl child base) := by
  induction along generalizing path names with
  | nil =>
    refine ⟨path, List.mem_singleton_self _, ?_⟩
    rwa [List.append_nil]
  | @blank glob globs more literal later filled ih =>
    obtain ⟨name, behind, rfl⟩ := List.exists_cons_of_ne_nil filled
    obtain ⟨place, entries, held, -⟩ := holds.lookup_above only respells.blank there
    obtain ⟨found, mem, spelled⟩ := ih respells.blank there
    exact ⟨found, mem_follow_of_literal literal (by decide) (by decide) held mem, spelled⟩
  | @name glob globs name more literal later ih =>
    obtain ⟨isName, next, there, ⟨place, inner, held⟩, -⟩ := holds.step only respells there
    obtain ⟨found, mem, spelled⟩ := ih next there
    rw [List.append_cons]
    refine ⟨found, mem_follow_of_literal literal ?_ ?_ held mem, spelled⟩
    · rintro rfl
      exact isName.2.2.1 rfl
    · rintro rfl
      exact isName.2.2.2 rfl
  | @matched glob globs name more literal shallow matched later ih =>
    obtain ⟨-, next, there, -, inside⟩ := holds.step only respells there
    obtain ⟨found, mem, spelled⟩ := ih next there
    rw [List.append_cons]
    exact ⟨found, mem_follow_of_matches literal shallow matched inside mem, spelled⟩
  | @deep glob next globs more deep deep' later ih =>
    rw [follow_deep_deep deep deep']
    exact ih respells there
  | @through glob next globs below more deep shallow filled matched later ih =>
    have isName := (List.forall_mem_append.1 (List.forall_mem_append.1 (holds.isName there)).2).1
    obtain ⟨name, behind, rfl⟩ := List.exists_cons_of_ne_nil filled
    obtain ⟨place, entries, held, above⟩ := holds.lookup_above only respells there
    rw [← List.append_assoc] at there ⊢
    obtain ⟨inner, inside, -⟩ := Entry.exists_at?_of_append there
    rw [Entry.at?_append, above] at inside
    have descendant := Entry.mem_descendants inside filled
    have next' : Respells ((name :: behind).foldl child path)
        ((names ++ name :: behind).foldl child base) := by
      rw [List.foldl_append]
      exact respells.foldl_child isName
    obtain ⟨found, mem, spelled⟩ := ih next' there
    have listed := mem_allBelow_iff.2 ⟨_, _, entry?_of_lookup held, descendant, rfl, rfl⟩
    exact ⟨found, mem_follow_of_below deep shallow matched listed mem, spelled⟩

end

/-! ## What is found -/

/-- Names lead to a file of the tree, and along a pattern. -/
structure Picks (tree : Entry) (patterns : List String) (names : List String) : Prop where
  isFile : (tree.at? names).any Entry.isFile = true
  leads : ∃ pattern ∈ patterns, LeadsAlong pattern names

/-- One of the excludes matches the names, written as a path. -/
def Excluded (excludes : List String) (names : List String) : Prop :=
  ∃ exclude ∈ excludes, ∃ glob, Glob.read exclude = .ok glob ∧
    glob.matchesPath ("/".intercalate names) = true

section

variable (holds : files.HoldsTree base tree) (only : base.OnlyNames)

include holds only

/-- The files that patterns lead to are those at the end of the names that they lead along. -/
theorem HoldsTree.leadTo_iff (undotted : ∀ pattern ∈ patterns, Undotted pattern) :
    files.LeadTo base patterns path ∧ files.isFile path = true ↔
      ∃ names, Picks tree patterns names ∧ path = names.foldl child base.normalize := by
  have bare := holds.bare only
  have there := holds.isDirectory_base
  obtain ⟨start, first, directory, later, written⟩ := exists_written bare only
  have spelled : ∀ {place : Path} {names : List String}, (∀ name ∈ names, IsName name) →
      Respells place (names.foldl child base) →
        place.normalize = names.foldl child base.normalize := by
    intro place names isName respells
    have normal := (holds.respells_normalize only).foldl_child isName
    rw [respells.normalize_eq, ← normal.normalize_eq]
    exact (normal_foldl_child base.normalize_normalize isName).1
  constructor
  · rintro ⟨⟨pattern, asked, leads⟩, isFile⟩
    obtain ⟨ended, globs, readAs, place, followed, rfl⟩ :=
      (written.exists_place_iff bare there (undotted pattern asked).relative isFile).1 leads
    obtain ⟨names, arrives⟩ := exists_arrives holds only (List.forall_mem_nil _)
      (written.respells bare) (readAs.descends (undotted pattern asked)) followed
    have path := spelled arrives.isName arrives.respells
    rw [path, holds.isFile_iff only arrives.isName] at isFile
    exact ⟨names, ⟨isFile, pattern, asked, ended, globs, readAs, arrives.along isFile⟩, path⟩
  · rintro ⟨names, ⟨isFile, pattern, asked, ended, globs, readAs, along⟩, rfl⟩
    obtain ⟨entry, inside, -⟩ := (Option.any_eq_true _ _).1 isFile
    have isName := holds.isName inside
    have isFile := (holds.isFile_iff only isName).2 isFile
    have spells : Respells (later.foldl child directory) (([] : List String).foldl child base) :=
      written.respells bare
    obtain ⟨place, followed, respells⟩ := exists_of_along holds only along spells inside
    refine ⟨⟨pattern, asked, ?_⟩, isFile⟩
    exact (written.exists_place_iff bare there (undotted pattern asked).relative isFile).2
      ⟨ended, globs, readAs, place, followed, (spelled isName respells).symm⟩

theorem HoldsTree.findFiles_ok_iff (undotted : ∀ pattern ∈ patterns, Undotted pattern) :
    (∃ found, files.findFiles base patterns excludes = .ok found) ↔
      AllRead excludes ∧ ∀ pattern ∈ patterns, ∃ globs, ReadAs pattern globs := by
  have bare := holds.bare only
  obtain ⟨start, first, directory, later, written⟩ := exists_written bare only
  rw [FileSystem.findFiles_ok_iff]
  refine and_congr_right fun _ => forall₂_congr fun pattern asked => ?_
  exact written.exists_globPaths_iff bare (undotted pattern asked).relative

theorem HoldsTree.mem_found_iff (undotted : ∀ pattern ∈ patterns, Undotted pattern)
    {all : List Path} (h : files.findFiles base patterns excludes = .ok all) :
    path ∈ all ↔ ∃ names, Picks tree patterns names ∧ ¬Excluded excludes names ∧
      path = names.foldl child base.normalize := by
  have kept : ∀ {names : List String}, Picks tree patterns names →
      (IsExcluded base excludes (names.foldl child base.normalize) ↔ Excluded excludes names) := by
    intro names picks
    rw [IsExcluded, holds.relativeTo_eq picks.isFile, Excluded]
  rw [FileSystem.mem_found_iff h, ← and_assoc, holds.leadTo_iff only undotted]
  constructor
  · rintro ⟨⟨names, picks, rfl⟩, excluded⟩
    exact ⟨names, picks, mt (kept picks).2 excluded, rfl⟩
  · rintro ⟨names, picks, excluded, rfl⟩
    exact ⟨⟨names, picks, rfl⟩, mt (kept picks).1 excluded⟩

end

end FileSystem

end BuildTargets
