import BuildTargets.Proofs.FileSystem.Search

/-!
# The order of paths

Paths are ordered component by component. The order is total, and paths that come before each other
have the same components, so inserting paths one after the other makes an ascending list of them.
-/

namespace BuildTargets

namespace Path

/-! ## Components -/

namespace Component

theorem le_total (a b : Component) : a.le b = true ∨ b.le a = true := by
  cases a <;> cases b
  case name.name s t =>
    rw [le, le, decide_eq_true_iff, decide_eq_true_iff]
    exact String.le_total s t
  all_goals first | exact .inl rfl | exact .inr rfl

theorem le_trans {a b c : Component} (first : a.le b = true) (second : b.le c = true) :
    a.le c = true := by
  cases a <;> cases b <;> cases c
  case name.name.name s t u =>
    rw [le, decide_eq_true_iff] at first second ⊢
    exact String.le_trans first second
  all_goals
    first
    | rfl
    | exact absurd first Bool.false_ne_true
    | exact absurd second Bool.false_ne_true

theorem le_antisymm {a b : Component} (first : a.le b = true) (second : b.le a = true) :
    a = b := by
  cases a <;> cases b
  case name.name s t =>
    rw [le, decide_eq_true_iff] at first second
    rw [String.le_antisymm first second]
  all_goals
    first
    | rfl
    | exact absurd first Bool.false_ne_true
    | exact absurd second Bool.false_ne_true

end Component

/-! ## Paths -/

theorem leComponents_total (a b : List Component) :
    leComponents a b = true ∨ leComponents b a = true := by
  induction a generalizing b with
  | nil => exact .inl rfl
  | cons first a ih =>
    cases b with
    | nil => exact .inr rfl
    | cons second b =>
      rw [leComponents, leComponents]
      by_cases same : first = second
      · rw [if_pos same, if_pos same.symm]
        exact ih b
      · rw [if_neg same, if_neg (Ne.symm same)]
        exact first.le_total second

theorem leComponents_trans {a b c : List Component} (first : leComponents a b = true)
    (second : leComponents b c = true) : leComponents a c = true := by
  induction a generalizing b c with
  | nil => rfl
  | cons x a ih =>
    cases b with
    | nil => cases first
    | cons y b =>
      cases c with
      | nil => cases second
      | cons z c =>
        rw [leComponents] at first second ⊢
        by_cases xy : x = y
        · subst xy
          rw [if_pos rfl] at first
          by_cases xz : x = z
          · rw [if_pos xz] at second ⊢
            exact ih first second
          · rwa [if_neg xz] at second ⊢
        · rw [if_neg xy] at first
          by_cases yz : y = z
          · subst yz
            rwa [if_neg xy]
          · rw [if_neg yz] at second
            have between := Component.le_trans first second
            rw [if_neg]
            · exact between
            · rintro rfl
              exact xy (Component.le_antisymm first second)

theorem leComponents_antisymm {a b : List Component} (first : leComponents a b = true)
    (second : leComponents b a = true) : a = b := by
  induction a generalizing b with
  | nil =>
    cases b with
    | nil => rfl
    | cons y b => cases second
  | cons x a ih =>
    cases b with
    | nil => cases first
    | cons y b =>
      rw [leComponents] at first second
      by_cases same : x = y
      · rw [if_pos same] at first
        rw [if_pos same.symm] at second
        rw [same, ih first second]
      · rw [if_neg same] at first
        rw [if_neg (Ne.symm same)] at second
        exact absurd (Component.le_antisymm first second) same

theorem le_total (a b : Path) : a.le b = true ∨ b.le a = true := leComponents_total _ _

theorem le_trans {a b c : Path} (first : a.le b = true) (second : b.le c = true) :
    a.le c = true := leComponents_trans first second

/-- Paths that come before each other are the same. -/
theorem same_of_le {a b : Path} (first : a.le b = true) (second : b.le a = true) :
    a.same b = true := same_iff.2 (leComponents_antisymm first second)

structure Precedes (a b : Path) : Prop where
  le : a.le b = true
  differs : a.same b = false

theorem Precedes.trans {a b c : Path} (first : a.Precedes b) (second : b.Precedes c) :
    a.Precedes c where
  le := le_trans first.le second.le
  differs := by
    -- Were `a` the same as `c`, it would have `b` on both sides.
    refine Bool.eq_false_iff.2 fun same => ?_
    have back : b.le a = true := by
      rw [Path.le, same_iff.1 same]
      exact second.le
    exact Bool.eq_false_iff.1 first.differs (same_of_le first.le back)

/-- Each path of a list precedes those behind it. -/
def Ascending (paths : List Path) : Prop := paths.Pairwise Precedes

end Path

/-! ## Insertion -/

namespace FileSystem

open BuildTargets.Path

variable {path other : Path} {paths : List Path}

theorem mem_insertPath_of_mem (h : other ∈ paths) : other ∈ insertPath path paths := by
  induction paths with
  | nil => cases h
  | cons first rest ih =>
    rw [insertPath]
    split
    · exact h
    · split
      · exact List.mem_cons_of_mem _ h
      · rcases List.mem_cons.1 h with rfl | h
        · exact List.mem_cons_self
        · exact List.mem_cons_of_mem _ (ih h)

theorem exists_same_insertPath (path : Path) (paths : List Path) :
    ∃ other ∈ insertPath path paths, other.same path = true := by
  induction paths with
  | nil => exact ⟨path, List.mem_singleton_self _, same_iff.2 rfl⟩
  | cons first rest ih =>
    rw [insertPath]
    split
    · next same => exact ⟨first, List.mem_cons_self, same⟩
    · split
      · exact ⟨path, List.mem_cons_self, same_iff.2 rfl⟩
      · obtain ⟨other, mem, same⟩ := ih
        exact ⟨other, List.mem_cons_of_mem _ mem, same⟩

theorem ascending_insertPath (path : Path) (h : Ascending paths) :
    Ascending (insertPath path paths) := by
  induction paths with
  | nil => exact List.pairwise_singleton _ _
  | cons first rest ih =>
    obtain ⟨before, ascending⟩ := List.pairwise_cons.1 h
    rw [insertPath]
    split
    · exact h
    · next differs =>
      have differs : first.same path = false := Bool.eq_false_iff.2 differs
      split
      · next le =>
        have precedes : path.Precedes first := ⟨le, by rw [same_comm, differs]⟩
        refine List.pairwise_cons.2 ⟨fun other mem => ?_, h⟩
        rcases List.mem_cons.1 mem with rfl | mem
        · exact precedes
        · exact precedes.trans (before other mem)
      · next behind =>
        have precedes : first.Precedes path := ⟨(path.le_total first).resolve_left behind, differs⟩
        refine List.pairwise_cons.2 ⟨fun other mem => ?_, ih ascending⟩
        rcases mem_insertPath mem with rfl | mem
        · exact precedes
        · exact before other mem

theorem ascending_foldr_insertPath (paths : List Path) :
    Ascending (paths.foldr insertPath []) := by
  induction paths with
  | nil => exact .nil
  | cons first rest ih => exact ascending_insertPath first ih

theorem mem_foldr_insertPath_iff (normal : ∀ path ∈ paths, path.normalize = path) :
    path ∈ paths.foldr insertPath [] ↔ path ∈ paths := by
  refine ⟨mem_foldr_insertPath, fun mem => ?_⟩
  induction paths with
  | nil => cases mem
  | cons first rest ih =>
    rw [List.forall_mem_cons] at normal
    rw [List.foldr_cons]
    rcases List.mem_cons.1 mem with rfl | mem
    · obtain ⟨other, inside, same⟩ := exists_same_insertPath path (rest.foldr insertPath [])
      have written : other.normalize = other := by
        rcases mem_insertPath inside with rfl | inside
        · exact normal.1
        · exact normal.2 other (mem_foldr_insertPath inside)
      rw [← written, ← normal.1, normalize_same_iff, written, normal.1] at same
      rwa [same] at inside
    · exact mem_insertPath_of_mem (ih normal.2 mem)

end FileSystem

end BuildTargets
