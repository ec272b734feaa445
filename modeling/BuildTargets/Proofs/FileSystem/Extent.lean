import BuildTargets.Proofs.FileSystem.Spelling
import Mathlib.Data.Fintype.EquivFin
import Mathlib.Data.Set.Finite.List

/-!
# How many files and paths there are

The regular files of a tree are listed by place. Many paths can lead to one of them, but not
infinitely many: a path that can be followed has a bounded length.
-/

namespace BuildTargets

namespace Entry

theorem mem_descendantsOf {entries : List (String × Entry)} {name : String} {inner : Entry}
    (held : entries.lookup name = some inner) :
    ([name], inner) ∈ descendantsOf entries ∧ ∀ names entry, (names, entry) ∈ inner.descendants →
      (name :: names, entry) ∈ descendantsOf entries := by
  induction entries with
  | nil => cases held
  | cons first rest ih =>
    obtain ⟨other, entry⟩ := first
    rw [lookup_cons_eq_ite] at held
    rw [descendantsOf]
    split at held
    · next same =>
      cases held
      subst same
      refine ⟨List.mem_cons_self, fun names below mem => ?_⟩
      exact List.mem_append_left _ (List.mem_cons_of_mem _ (List.mem_map.2 ⟨_, mem, rfl⟩))
    · obtain ⟨self, below⟩ := ih held
      exact ⟨List.mem_append_right _ self,
        fun names entry mem => List.mem_append_right _ (below names entry mem)⟩

theorem mem_descendants {entry inner : Entry} {place : List String}
    (there : entry.at? place = some inner) (below : place ≠ []) :
    (place, inner) ∈ entry.descendants := by
  induction place generalizing entry with
  | nil => exact absurd rfl below
  | cons name rest ih =>
    rw [at?_cons, Option.bind_eq_some_iff] at there
    obtain ⟨child, held, there⟩ := there
    cases entry with
    | file content => cases held
    | directory entries =>
      obtain ⟨self, inside⟩ := mem_descendantsOf held
      cases rest with
      | nil =>
        cases there
        exact self
      | cons next rest => exact inside _ _ (ih there (List.cons_ne_nil _ _))

end Entry

namespace FileSystem

variable {files : FileSystem} {path : Path} {place : List String}

/-! ## Regular files -/

def filePlaces (files : FileSystem) : List (List String) :=
  ((([], files.root) :: files.root.descendants).filter fun (_, entry) => entry.isFile).map Prod.fst

theorem mem_filePlaces {content : ByteArray} (h : files.lookup path = .ok (place, .file content)) :
    place ∈ files.filePlaces := by
  obtain ⟨-, -, there, -⟩ := lookup_eq_ok h
  have listed : (place, Entry.file content) ∈ ([], files.root) :: files.root.descendants := by
    by_cases empty : place = []
    · subst empty
      rw [show files.root = .file content from Option.some.inj there]
      exact List.mem_cons_self
    · exact List.mem_cons_of_mem _ (Entry.mem_descendants there empty)
  exact List.mem_map.2 ⟨_, List.mem_filter.2 ⟨listed, rfl⟩, rfl⟩

/-! ## Paths -/

instance : Finite UInt8 := Finite.of_injective UInt8.toFin fun _ _ => UInt8.toFin_inj.1

theorem finite_text (bound : Nat) : {text : String | text.utf8ByteSize ≤ bound}.Finite := by
  have bytes : Set.InjOn (fun text : String => text.toByteArray.data.toList) Set.univ :=
    fun _ _ _ _ same => String.toByteArray_inj.1 (ByteArray.ext (Array.toList_inj.1 same))
  exact (List.finite_length_le UInt8 bound).preimage (bytes.mono (Set.subset_univ _))

theorem exists_known : ∃ known : List Path, (∀ path ∈ known, path.normalize = path) ∧
    ∀ (files : FileSystem) (path : Path), path.normalize = path → files.contains path = true →
      path ∈ known := by
  obtain ⟨texts, mem⟩ := (finite_text longestPath).exists_finset
  refine ⟨(texts.toList.map Path.mk).filter fun path => path.normalize = path,
    fun path mem => by simpa using (List.mem_filter.1 mem).2, fun files path normal there => ?_⟩
  have short : path.text.utf8ByteSize ≤ longestPath := by
    unfold contains entry? at there
    split at there
    · next found =>
      have fault := (lookup_eq_ok found).1
      unfold pathFault? at fault
      split at fault
      · cases fault
      · split at fault
        · cases fault
        · split at fault
          · cases fault
          · next short => exact Nat.not_lt.1 short
    · cases there
  exact List.mem_filter.2 ⟨List.mem_map.2 ⟨path.text, Finset.mem_toList.2 ((mem _).2 short), rfl⟩,
    decide_eq_true normal⟩

end FileSystem

end BuildTargets
