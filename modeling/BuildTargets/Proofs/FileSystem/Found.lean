import BuildTargets.Proofs.Path.Order

/-!
# What is found, exactly

A search that goes through finds, in ascending order and each once, the normal forms of what its
patterns lead to, as far as they are files that no exclude matches. It goes through if all patterns
and excludes are globs.
-/

namespace BuildTargets.FileSystem

open BuildTargets.Path

variable {files : FileSystem} {base path : Path} {patterns excludes : List String}
  {found : List Path}

/-! ## Searches -/

theorem exists_findFiles (excluded : ∀ exclude ∈ excludes, ∃ glob, Glob.read exclude = .ok glob)
    (globbed : ∀ pattern ∈ patterns, ∃ places,
      files.globPaths (globText base pattern) = .ok places) :
    ∃ found, files.findFiles base patterns excludes = .ok found := by
  obtain ⟨globs, excluded⟩ := exists_mapM
    (fun exclude => (Glob.read exclude).mapError fun cause =>
      Fault.discovery (.badExclude exclude cause))
    fun exclude mem => (excluded exclude mem).imp fun _ => mapError_eq_ok.2
  obtain ⟨places, globbed⟩ := exists_mapM
    (fun pattern => (files.globPaths (globText base pattern)).mapError fun cause =>
      Fault.discovery (.badPattern pattern cause))
    fun pattern mem => (globbed pattern mem).imp fun _ => mapError_eq_ok.2
  unfold findFiles
  rw [excluded]
  unfold globText at globbed
  simp only [bind, Except.bind, pure, Except.pure]
  rw [globbed]
  exact ⟨_, rfl⟩

/-- A path is found if a pattern leads to a spelling of it, it is a file and no exclude matches
it. -/
theorem mem_findFiles_iff (h : files.findFiles base patterns excludes = .ok found) :
    path ∈ found ↔
      (∃ pattern ∈ patterns, ∃ places, files.globPaths (globText base pattern) = .ok places ∧
        ∃ place ∈ places, path = place.normalize) ∧ files.isFile path = true ∧
      ∀ exclude ∈ excludes, ∀ glob, Glob.read exclude = .ok glob →
        glob.matchesPath (path.relativeTo base.normalize).text = false := by
  unfold findFiles at h
  simp only [bind, Except.bind, pure, Except.pure] at h
  split at h
  · cases h
  · next globs excluded =>
    split at h
    · cases h
    · next places globbed =>
      cases h
      rw [mem_foldr_insertPath_iff fun other mem => by
        obtain ⟨place, -, rfl⟩ := List.mem_map.1 (List.mem_filter.1 mem).1
        exact place.normalize_normalize]
      have leads : path ∈ places.flatten.map Path.normalize ↔ ∃ pattern ∈ patterns, ∃ places,
          files.globPaths (globText base pattern) = .ok places ∧
            ∃ place ∈ places, path = place.normalize := by
        rw [List.mem_map]
        constructor
        · rintro ⟨place, flat, rfl⟩
          obtain ⟨each, mem, inside⟩ := List.mem_flatten.1 flat
          obtain ⟨pattern, asked, eq⟩ := exists_of_mem_mapM globbed mem
          exact ⟨pattern, asked, each, mapError_eq_ok.1 eq, place, inside, rfl⟩
        · rintro ⟨pattern, asked, each, eq, place, inside, rfl⟩
          exact ⟨place, List.mem_flatten.2
            ⟨each, mem_of_mapM globbed asked (mapError_eq_ok.2 eq), inside⟩, rfl⟩
      have kept : (!globs.any fun glob =>
            glob.matchesPath (path.relativeTo base.normalize).text) = true ↔
          ∀ exclude ∈ excludes, ∀ glob, Glob.read exclude = .ok glob →
            glob.matchesPath (path.relativeTo base.normalize).text = false := by
        simp only [Bool.not_eq_true', List.any_eq_false, Bool.not_eq_true]
        constructor
        · exact fun none exclude mem glob eq =>
            none glob (mem_of_mapM excluded mem (mapError_eq_ok.2 eq))
        · intro none glob mem
          obtain ⟨exclude, asked, eq⟩ := exists_of_mem_mapM excluded mem
          exact none exclude asked glob (mapError_eq_ok.1 eq)
      rw [List.mem_filter, leads, Bool.and_eq_true, kept]

theorem ascending_findFiles (h : files.findFiles base patterns excludes = .ok found) :
    Ascending found := by
  unfold findFiles at h
  simp only [bind, Except.bind, pure, Except.pure] at h
  split at h
  · cases h
  · split at h
    · cases h
    · cases h
      exact ascending_foldr_insertPath _

end BuildTargets.FileSystem
