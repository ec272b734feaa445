import BuildTargets.Proofs.FileSystem.Found
import Mathlib.Data.List.Nodup

/-!
# Searches as sets

What a search finds is a set written down in ascending order, so it depends on which patterns and
excludes there are and not on how they are listed: patterns add to it what each of them leads to,
and an exclude takes away what it matches.
-/

namespace BuildTargets

open BuildTargets.Path

/-! ## Ascending lists -/

namespace Path

theorem Precedes.irrefl (path : Path) : ¬ path.Precedes path := fun before =>
  Bool.eq_false_iff.1 before.differs (same_iff.2 rfl)

variable {paths others : List Path}

theorem Ascending.nodup (ascending : Ascending paths) : paths.Nodup := by
  refine List.Pairwise.imp ?_ ascending
  rintro path _ before rfl
  exact before.irrefl

theorem Ascending.eq_of_mem_iff (ascending : Ascending paths) (ascending' : Ascending others)
    (same : ∀ path, path ∈ paths ↔ path ∈ others) : paths = others := by
  have perm := (List.perm_ext_iff_of_nodup ascending.nodup ascending'.nodup).2 same
  refine perm.eq_of_pairwise ?_ ascending ascending'
  intro path other _ _ before after
  exact absurd (before.trans after) (Precedes.irrefl path)

end Path

namespace FileSystem

variable {files : FileSystem} {base path : Path}
  {patterns patterns' excludes excludes' first second : List String} {found : List Path}

/-! ## Searches that go through -/

def AllRead (excludes : List String) : Prop :=
  ∀ exclude ∈ excludes, ∃ glob, Glob.read exclude = .ok glob

def AllFollowed (files : FileSystem) (base : Path) (patterns : List String) : Prop :=
  ∀ pattern ∈ patterns, ∃ places, files.globPaths (globText base pattern) = .ok places

theorem findFiles_ok_iff : (∃ found, files.findFiles base patterns excludes = .ok found) ↔
    AllRead excludes ∧ files.AllFollowed base patterns := by
  refine ⟨?_, fun ⟨read, followed⟩ => exists_findFiles read followed⟩
  rintro ⟨found, h⟩
  unfold findFiles at h
  simp only [bind, Except.bind, pure, Except.pure] at h
  split at h
  · cases h
  · next globs excluded =>
    split at h
    · cases h
    · next places globbed =>
      constructor
      · intro exclude mem
        obtain ⟨glob, eq⟩ := exists_of_mapM_ok excluded exclude mem
        exact ⟨glob, mapError_eq_ok.1 eq⟩
      · intro pattern mem
        obtain ⟨each, eq⟩ := exists_of_mapM_ok globbed pattern mem
        exact ⟨each, mapError_eq_ok.1 eq⟩

/-! ## What is found -/

/-- One of the patterns leads to a place with this normal form. -/
def LeadTo (files : FileSystem) (base : Path) (patterns : List String) (path : Path) : Prop :=
  ∃ pattern ∈ patterns, ∃ places, files.globPaths (globText base pattern) = .ok places ∧
    ∃ place ∈ places, path = place.normalize

/-- One of the excludes matches the path as it is seen from the base. -/
def IsExcluded (base : Path) (excludes : List String) (path : Path) : Prop :=
  ∃ exclude ∈ excludes, ∃ glob, Glob.read exclude = .ok glob ∧
    glob.matchesPath (path.relativeTo base.normalize).text = true

theorem mem_found_iff (h : files.findFiles base patterns excludes = .ok found) :
    path ∈ found ↔ files.LeadTo base patterns path ∧ files.isFile path = true ∧
      ¬ IsExcluded base excludes path := by
  rw [mem_findFiles_iff h]
  refine and_congr_right fun _ => and_congr_right fun _ => ?_
  constructor
  · rintro none ⟨exclude, mem, glob, read, matched⟩
    rw [none exclude mem glob read] at matched
    cases matched
  · intro none exclude mem glob read
    exact Bool.eq_false_iff.2 fun matched => none ⟨exclude, mem, glob, read, matched⟩

theorem leadTo_append :
    files.LeadTo base (first ++ second) path ↔
      files.LeadTo base first path ∨ files.LeadTo base second path := by
  simp only [LeadTo, List.mem_append, or_and_right, exists_or]

theorem leadTo_congr (same : ∀ pattern, pattern ∈ patterns' ↔ pattern ∈ patterns) :
    files.LeadTo base patterns' path ↔ files.LeadTo base patterns path := by
  simp only [LeadTo, same]

theorem isExcluded_congr (same : ∀ exclude, exclude ∈ excludes' ↔ exclude ∈ excludes) :
    IsExcluded base excludes' path ↔ IsExcluded base excludes path := by
  simp only [IsExcluded, same]

/-- A path that is excluded by one exclude more is excluded by the others or matches that one. -/
theorem isExcluded_insert {exclude : String} {glob : Glob} (read : Glob.read exclude = .ok glob)
    (more : ∀ other, other ∈ excludes' ↔ other = exclude ∨ other ∈ excludes) :
    IsExcluded base excludes' path ↔
      glob.matchesPath (path.relativeTo base.normalize).text = true ∨
        IsExcluded base excludes path := by
  simp only [IsExcluded, more, or_and_right, exists_or, exists_eq_left, read, Except.ok.injEq,
    exists_eq_left']

theorem findFiles_eq_of_mem_iff (goes : ∃ all, files.findFiles base patterns excludes = .ok all)
    (ascending : Ascending found)
    (same : ∀ path, path ∈ found ↔ files.LeadTo base patterns path ∧ files.isFile path = true ∧
      ¬ IsExcluded base excludes path) :
    files.findFiles base patterns excludes = .ok found := by
  obtain ⟨all, h⟩ := goes
  rw [h, (ascending_findFiles h).eq_of_mem_iff ascending fun path =>
    (mem_found_iff h).trans (same path).symm]

theorem findFiles_congr (h : files.findFiles base patterns excludes = .ok found)
    (same : ∀ pattern, pattern ∈ patterns' ↔ pattern ∈ patterns)
    (same' : ∀ exclude, exclude ∈ excludes' ↔ exclude ∈ excludes) :
    files.findFiles base patterns' excludes' = .ok found := by
  obtain ⟨read, followed⟩ := findFiles_ok_iff.1 ⟨found, h⟩
  refine findFiles_eq_of_mem_iff (findFiles_ok_iff.2 ⟨fun exclude mem => ?_, fun pattern mem => ?_⟩)
    (ascending_findFiles h) fun path => ?_
  · exact read exclude ((same' exclude).1 mem)
  · exact followed pattern ((same pattern).1 mem)
  · rw [mem_found_iff h, leadTo_congr same, isExcluded_congr same']

theorem findFiles_insert_exclude (h : files.findFiles base patterns excludes = .ok found)
    {exclude : String} {glob : Glob} (read : Glob.read exclude = .ok glob)
    (more : ∀ other, other ∈ excludes' ↔ other = exclude ∨ other ∈ excludes) :
    files.findFiles base patterns excludes' = .ok (found.filter fun path =>
      !glob.matchesPath (path.relativeTo base.normalize).text) := by
  obtain ⟨others, followed⟩ := findFiles_ok_iff.1 ⟨found, h⟩
  refine findFiles_eq_of_mem_iff (findFiles_ok_iff.2 ⟨fun other mem => ?_, followed⟩)
    ((ascending_findFiles h).filter _) fun path => ?_
  · rcases (more other).1 mem with rfl | mem
    · exact ⟨glob, read⟩
    · exact others other mem
  · rw [List.mem_filter, mem_found_iff h, isExcluded_insert read more, not_or, Bool.not_eq_true',
      Bool.not_eq_true, and_assoc, and_assoc]
    exact and_congr_right fun _ => and_congr_right fun _ => and_comm

theorem findFiles_append_ok_iff :
    (∃ all, files.findFiles base (first ++ second) excludes = .ok all) ↔
      (∃ found, files.findFiles base first excludes = .ok found) ∧
        ∃ found, files.findFiles base second excludes = .ok found := by
  simp only [findFiles_ok_iff, AllFollowed, List.forall_mem_append]
  constructor
  · rintro ⟨read, followed, followed'⟩
    exact ⟨⟨read, followed⟩, read, followed'⟩
  · rintro ⟨⟨read, followed⟩, -, followed'⟩
    exact ⟨read, followed, followed'⟩

end FileSystem

/-- **A search finds a set, in canonical order.** Where it goes through, it finds in strictly
ascending order the normal forms of what its patterns lead to, as far as they are files that no
exclude matches. So the order and the repetition of patterns and excludes do not matter, an exclude
takes away what it matches, and patterns listed together find what they find apart, if they all are
globs. -/
theorem search_finds_ascending_set (files : FileSystem) (base : Path) :
    (∀ patterns excludes found, files.findFiles base patterns excludes = .ok found →
      Ascending found ∧ found.Nodup ∧
      (∀ path ∈ found, path.normalize = path ∧ files.isFile path = true) ∧
      (∀ path, path ∈ found ↔ files.LeadTo base patterns path ∧ files.isFile path = true ∧
        ¬ FileSystem.IsExcluded base excludes path) ∧
      (∀ patterns' excludes', (∀ pattern, pattern ∈ patterns' ↔ pattern ∈ patterns) →
        (∀ exclude, exclude ∈ excludes' ↔ exclude ∈ excludes) →
        files.findFiles base patterns' excludes' = .ok found) ∧
      ∀ exclude glob excludes', Glob.read exclude = .ok glob →
        (∀ other, other ∈ excludes' ↔ other = exclude ∨ other ∈ excludes) →
        files.findFiles base patterns excludes' = .ok (found.filter fun path =>
          !glob.matchesPath (path.relativeTo base.normalize).text)) ∧
    ∀ first second excludes,
      ((∃ all, files.findFiles base (first ++ second) excludes = .ok all) ↔
        (∃ found, files.findFiles base first excludes = .ok found) ∧
          ∃ found, files.findFiles base second excludes = .ok found) ∧
      ∀ all found others, files.findFiles base (first ++ second) excludes = .ok all →
        files.findFiles base first excludes = .ok found →
        files.findFiles base second excludes = .ok others →
        ∀ path, path ∈ all ↔ path ∈ found ∨ path ∈ others := by
  constructor
  · intro patterns excludes found h
    have ascending := FileSystem.ascending_findFiles h
    refine ⟨ascending, ascending.nodup, fun path mem => ?_, fun path => FileSystem.mem_found_iff h,
      fun _ _ => FileSystem.findFiles_congr h,
      fun _ _ _ => FileSystem.findFiles_insert_exclude h⟩
    have kept := (FileSystem.mem_found_iff h).1 mem
    exact ⟨FileSystem.normalize_of_mem_findFiles h mem, kept.2.1⟩
  · intro first second excludes
    refine ⟨FileSystem.findFiles_append_ok_iff, ?_⟩
    intro all found others together h h' path
    rw [FileSystem.mem_found_iff together, FileSystem.mem_found_iff h, FileSystem.mem_found_iff h',
      FileSystem.leadTo_append, or_and_right]

def scatteredFiles : FileSystem where
  root := .directory [
    ("w", .directory [
      ("b.mk", .file "b:\n".toUTF8),
      ("sub", .directory [("a.mk", .file "a:\n".toUTF8)])]),
    ("x.mk", .file "x:\n".toUTF8)]
  workingDirectory := ["w"]

/-- Two patterns that lead to one file by different ways, and one that leads out of the base. Listed
in another order and more than once they find the same; an exclude takes away the file that it
describes as seen from the base; and apart they find what they find together. -/
theorem scattered_files_found_once :
    scatteredFiles.findFiles ⟨"../w"⟩ ["sub/../*.mk", "**/*.mk", "../*.mk"] [] =
        .ok [⟨"../w/b.mk"⟩, ⟨"../w/sub/a.mk"⟩, ⟨"../x.mk"⟩] ∧
      scatteredFiles.findFiles ⟨"../w"⟩ ["../*.mk", "**/*.mk", "sub/../*.mk", "**/*.mk"] [] =
        .ok [⟨"../w/b.mk"⟩, ⟨"../w/sub/a.mk"⟩, ⟨"../x.mk"⟩] ∧
      scatteredFiles.findFiles ⟨"../w"⟩ ["sub/../*.mk", "**/*.mk", "../*.mk"] ["sub/*"] =
        .ok [⟨"../w/b.mk"⟩, ⟨"../x.mk"⟩] ∧
      (∃ found, scatteredFiles.findFiles ⟨"../w"⟩ ["sub/../*.mk"] [] = .ok found) ∧
      ∃ found, scatteredFiles.findFiles ⟨"../w"⟩ ["**/*.mk", "../*.mk"] [] = .ok found := by
  have all : scatteredFiles.findFiles ⟨"../w"⟩ ["sub/../*.mk", "**/*.mk", "../*.mk"] [] =
      .ok [⟨"../w/b.mk"⟩, ⟨"../w/sub/a.mk"⟩, ⟨"../x.mk"⟩] := eq_ok_of_toOption (by decide +kernel)
  have exclude : Glob.read "sub/*" = .ok ⟨[.char 's', .char 'u', .char 'b', .char '/', .star]⟩ :=
    eq_ok_of_toOption (by decide +kernel)
  obtain ⟨apart, together⟩ := search_finds_ascending_set scatteredFiles ⟨"../w"⟩
  obtain ⟨-, -, -, -, listed, excluded⟩ := apart _ _ _ all
  obtain ⟨goes, -⟩ := together ["sub/../*.mk"] ["**/*.mk", "../*.mk"] []
  refine ⟨all, listed _ _ ?_ fun _ => Iff.rfl, ?_, goes.1 ⟨_, all⟩⟩
  · intro pattern
    simp only [List.mem_cons, List.not_mem_nil]
    tauto
  · rw [excluded "sub/*" _ ["sub/*"] exclude fun _ => by simp]
    exact congrArg Except.ok (by decide +kernel)

end BuildTargets
