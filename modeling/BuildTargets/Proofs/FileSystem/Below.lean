import BuildTargets.Proofs.FileSystem.Extent
import BuildTargets.Proofs.FileSystem.Search
import BuildTargets.Proofs.Path.Relative

/-!
# Paths below a directory

A path below a directory is written as the path of the directory and the names that follow. It
leads where the names lead from the directory, and seen from the directory it is these names.
-/

namespace BuildTargets

namespace Entry

/-! ## Everything below an entry -/

theorem ne_nil_of_mem_descendantsOf {entries : List (String × Entry)} {names : List String}
    {inner : Entry} (h : (names, inner) ∈ descendantsOf entries) : names ≠ [] := by
  induction entries with
  | nil => cases h
  | cons first rest ih =>
    obtain ⟨name, entry⟩ := first
    rw [descendantsOf, List.mem_append, List.mem_cons] at h
    rcases h with (same | below) | behind
    · cases same
      exact List.cons_ne_nil _ _
    · obtain ⟨found, -, same⟩ := List.mem_map.1 below
      cases same
      exact List.cons_ne_nil _ _
    · exact ih behind

theorem ne_nil_of_mem_descendants {entry inner : Entry} {names : List String}
    (h : (names, inner) ∈ entry.descendants) : names ≠ [] := by
  cases entry with
  | file content => cases h
  | directory entries => exact ne_nil_of_mem_descendantsOf h

theorem mem_descendants_append {entry inner below : Entry} {place names : List String}
    (there : entry.at? place = some inner) (h : (names, below) ∈ inner.descendants) :
    (place ++ names, below) ∈ entry.descendants := by
  induction place generalizing entry with
  | nil =>
    cases there
    exact h
  | cons name place ih =>
    rw [at?_cons, Option.bind_eq_some_iff] at there
    obtain ⟨next, held, there⟩ := there
    cases entry with
    | file content => cases held
    | directory entries => exact (mem_descendantsOf held).2 _ _ (ih there)

end Entry

namespace FileSystem

open BuildTargets.Path Text

variable {files : FileSystem} {directory path : Path} {place : List String}

/-- The tree holds nothing under a name that no path can give. -/
def Named (files : FileSystem) : Prop :=
  ∀ found ∈ files.root.descendants, ∀ name ∈ found.1, IsName name

instance (files : FileSystem) : Decidable files.Named := inferInstanceAs (Decidable (∀ _ ∈ _, _))

/-! ## Steps -/

def enter (directory : Path) (step : Component) : Path := child directory step.text

theorem foldl_enter_names (directory : Path) (names : List String) :
    (names.map Component.name).foldl enter directory = names.foldl child directory := by
  rw [List.foldl_map]
  rfl

/-- A directory that is written in a way steps can be added to. -/
structure Plain (directory : Path) : Prop where
  filled : directory.text ≠ ""
  here : directory.same ⟨"."⟩ = true → directory = ⟨"."⟩

theorem plain_of_normal (normal : directory.normalize = directory) : Plain directory where
  filled := by
    intro blank
    obtain ⟨text⟩ := directory
    cases blank
    have written : Path.normalize ⟨""⟩ = ⟨"."⟩ := rfl
    rw [written] at normal
    exact absurd (congrArg Path.text normal) (by decide)
  here same := by
    rw [← normal, normalize_congr same]
    rfl

theorem not_isAbsolute_step {step : Component} (isStep : step.IsStep) :
    isAbsolute ⟨step.text⟩ = false := by
  rw [isAbsolute, beq_eq_false_iff_ne]
  exact fun head => isStep.written.1 (List.mem_of_head? head)

def before (directory : Path) : String :=
  if directory.same ⟨"."⟩ then ""
  else if directory.text.toList.getLast? = some '/' then directory.text
  else directory.text ++ "/"

theorem enter_eq {step : Component} (plain : Plain directory) (isStep : step.IsStep) :
    enter directory step = ⟨before directory ++ step.text⟩ := by
  unfold enter child before
  split
  · rw [String.empty_append]
  · rw [join, not_isAbsolute_step isStep, if_neg Bool.false_ne_true]
    by_cases ended : directory.text.toList.getLast? = some '/'
    · rw [if_pos ended, if_pos (by simp [ended])]
    · rw [if_neg ended, if_neg (by simp [ended, plain.filled])]

theorem components_enter {step : Component} (isStep : step.IsStep) :
    (enter directory step).components =
      (if directory.components = [.here] then [] else directory.components) ++ [step] := by
  have here : directory.same ⟨"."⟩ = true ↔ directory.components = [.here] := same_iff
  unfold enter child
  split
  · next same =>
    obtain ⟨slash, -, dot, stands⟩ := isStep.written
    rw [if_pos (here.1 same), components_eq, lead_of_not_mem slash dot, steps_of_not_mem slash,
      stands]
    rfl
  · next apart =>
    rw [if_neg (here.not.1 apart)]
    exact components_join directory isStep

theorem components_enter_ne_here {step : Component} (isStep : step.IsStep) :
    (enter directory step).components ≠ [.here] := by
  intro same
  rw [components_enter isStep] at same
  have last := congrArg List.getLast? same
  rw [List.getLast?_concat] at last
  cases last
  rcases isStep.cases with stands | ⟨name, stands, -⟩ <;> cases stands

theorem Plain.enter {step : Component} (plain : Plain directory) (isStep : step.IsStep) :
    Plain (enter directory step) where
  filled := by
    rw [enter_eq plain isStep]
    intro blank
    exact isStep.written.2.1 (by simp [(String.append_eq_empty_iff.1 blank).2])
  here same := absurd (same_iff.1 same) (components_enter_ne_here isStep)

theorem before_enter {step : Component} (plain : Plain directory) (isStep : step.IsStep) :
    before (enter directory step) = (enter directory step).text ++ "/" := by
  have apart : (FileSystem.enter directory step).same ⟨"."⟩ = false :=
    Bool.eq_false_iff.2 fun same => components_enter_ne_here isStep (same_iff.1 same)
  obtain ⟨slash, filled, -, -⟩ := isStep.written
  rw [before, apart, if_neg Bool.false_ne_true, if_neg]
  rw [enter_eq plain isStep, String.toList_append, List.getLast?_append_of_ne_nil _ filled]
  exact fun last => slash (List.mem_of_getLast? last)

/-! ## Several steps -/

theorem text_foldl_enter {steps : List Component} (plain : Plain directory)
    (isStep : ∀ step ∈ steps, step.IsStep) (filled : steps ≠ []) :
    (steps.foldl enter directory).text =
      before directory ++ "/".intercalate (steps.map Component.text) := by
  induction steps generalizing directory with
  | nil => exact absurd rfl filled
  | cons step steps ih =>
    rw [List.forall_mem_cons] at isStep
    rw [List.foldl_cons]
    by_cases last : steps = []
    · rw [last, List.foldl_nil, enter_eq plain isStep.1]
      simp
    · rw [ih (plain.enter isStep.1) isStep.2 last, before_enter plain isStep.1,
        enter_eq plain isStep.1, List.map_cons,
        String.intercalate_cons_of_ne_nil (by simpa using last)]
      simp only [String.append_assoc]

theorem components_foldl_enter {steps : List Component}
    (isStep : ∀ step ∈ steps, step.IsStep) (filled : steps ≠ []) :
    (steps.foldl enter directory).components =
      (if directory.components = [.here] then [] else directory.components) ++ steps := by
  induction steps generalizing directory with
  | nil => exact absurd rfl filled
  | cons step steps ih =>
    rw [List.forall_mem_cons] at isStep
    rw [List.foldl_cons]
    by_cases last : steps = []
    · rw [last, List.foldl_nil, components_enter isStep.1]
    · rw [ih isStep.2 last, if_neg (components_enter_ne_here isStep.1), components_enter isStep.1,
        List.append_assoc, List.singleton_append]

/-! ## Where they lead -/

theorem lookup_enter {step : Component} {entry : Entry} (plain : Plain directory)
    (isStep : step.IsStep) (h : files.lookup (enter directory step) = .ok (place, entry)) :
    ∃ above entries, files.lookup directory = .ok (above, .directory entries) ∧
      files.locate above [step] = .ok place := by
  obtain ⟨fault, located, -, -⟩ := lookup_eq_ok h
  rw [components_enter isStep] at located
  obtain ⟨above, first, second⟩ := locate_append_eq_ok located
  obtain ⟨entries, there, -⟩ := locate_step_eq_ok second
    (isStep.cases.imp_right fun ⟨name, eq, _⟩ => ⟨name, eq⟩)
  refine ⟨above, entries, lookup_of_locate ?_ ?_ there nofun, second⟩
  · by_cases here : directory.same ⟨"."⟩ = true
    · rw [plain.here here]
      rfl
    · have begins : ∃ added, (enter directory step).text = directory.text ++ added := by
        rw [enter_eq plain isStep, before, if_neg here]
        split
        · exact ⟨_, rfl⟩
        · exact ⟨_, String.append_assoc⟩
      obtain ⟨added, begins⟩ := begins
      exact pathFault?_of_append added fault begins plain.filled
  · split at first
    · next here =>
      rw [here]
      exact first
    · exact first

theorem lookup_foldl_enter {steps : List Component} {entry : Entry} (plain : Plain directory)
    (isStep : ∀ step ∈ steps, step.IsStep)
    (h : files.lookup (steps.foldl enter directory) = .ok (place, entry)) :
    ∃ above inner, files.lookup directory = .ok (above, inner) ∧
      files.locate above steps = .ok place := by
  induction steps generalizing directory with
  | nil => exact ⟨place, entry, h, rfl⟩
  | cons step steps ih =>
    rw [List.forall_mem_cons] at isStep
    obtain ⟨between, inner, found, later⟩ := ih (plain.enter isStep.1) isStep.2 h
    obtain ⟨above, entries, held, first⟩ := lookup_enter plain isStep.1 found
    refine ⟨above, _, held, ?_⟩
    rw [← List.singleton_append, locate_append, first]
    exact later

theorem components_of_normal (normal : directory.normalize = directory) :
    (if directory.components = [.here] then [] else directory.components) =
      directory.normalComponents := by
  have written := directory.components_normalize
  rw [normal] at written
  rw [written]
  by_cases empty : directory.normalComponents = []
  · rw [if_pos empty, if_pos rfl, empty]
  · rw [if_neg empty, if_neg]
    obtain ⟨anchor, names, eq, -⟩ := directory.exists_anchor
    rw [eq]
    cases anchor with
    | root => simp [Anchor.components]
    | up count => cases count <;> cases names <;> simp [Anchor.components, List.replicate_succ]

theorem normal_child {name : String} (normal : directory.normalize = directory)
    (isName : IsName name) : (child directory name).normalize = child directory name ∧
      (child directory name).normalComponents =
        directory.normalComponents ++ [.name name] := by
  have isStep := isName.isStep
  have components : (child directory name).normalComponents =
      directory.normalComponents ++ [.name name] := by
    have added : (enter directory (.name name)).components = _ := components_enter isStep
    rw [components_of_normal normal] at added
    show ((enter directory (.name name)).components.foldl pushComponent []).reverse = _
    rw [added, List.foldl_append, foldl_normalComponents]
    simp [pushComponent]
  have written : (child directory name).normalize =
      (ofComponents directory.normalComponents).join ⟨name⟩ := by
    rw [Path.normalize, components]
    split
    · next none => simp at none
    · exact List.foldl_concat _ _ _ _
  refine ⟨?_, components⟩
  rw [written]
  by_cases here : directory.same ⟨"."⟩ = true
  · have nothing : directory.normalComponents = [] := by
      have single : directory.components = [.here] := same_iff.1 here
      rw [← components_of_normal normal, if_pos single]
    have relative : isAbsolute ⟨name⟩ = false := not_isAbsolute_step isStep
    rw [child, if_pos here, nothing, ofComponents, List.foldl_nil, join, relative,
      if_neg Bool.false_ne_true, if_pos (by simp), String.empty_append]
  · have filled : directory.normalComponents ≠ [] := by
      intro nothing
      apply here
      rw [← normal, Path.normalize, nothing]
      rfl
    have whole : ofComponents directory.normalComponents = directory := by
      conv_rhs => rw [← normal, Path.normalize]
      split
      · next none => exact absurd none filled
      · rfl
    rw [child, if_neg here, whole]

theorem normal_foldl_child {names : List String} (normal : directory.normalize = directory)
    (isName : ∀ name ∈ names, IsName name) :
    (names.foldl child directory).normalize = names.foldl child directory ∧
      (names.foldl child directory).normalComponents =
        directory.normalComponents ++ names.map .name := by
  induction names generalizing directory with
  | nil => exact ⟨normal, (List.append_nil _).symm⟩
  | cons name names ih =>
    rw [List.forall_mem_cons] at isName
    obtain ⟨written, components⟩ := normal_child normal isName.1
    obtain ⟨last, all⟩ := ih written isName.2
    refine ⟨last, ?_⟩
    rw [List.foldl_cons, all, components, List.append_assoc]
    rfl

/-! ## Names as one path -/

/-- Seen from a directory, what is below it is written as the names that lead there. -/
theorem text_relativeTo_foldl_child {names : List String}
    (normal : directory.normalize = directory) (isName : ∀ name ∈ names, IsName name)
    (filled : names ≠ []) :
    ((names.foldl child directory).relativeTo directory).text = "/".intercalate names := by
  have isStep := isStep_names isName
  have steps : names.map Component.name ≠ [] := by simpa using filled
  have text := text_foldl_enter (plain_of_normal normal) isStep steps
  have components : ((names.map Component.name).foldl enter directory).components = _ :=
    components_foldl_enter isStep steps
  rw [foldl_enter_names] at text components
  have texts : (names.map Component.name).map Component.text = names := by
    rw [List.map_map]
    exact List.map_id names
  rw [texts, before] at text
  by_cases here : directory.same ⟨"."⟩ = true
  · have single : directory.components = [.here] := same_iff.1 here
    rw [if_pos here, String.empty_append] at text
    rw [if_pos single, List.nil_append] at components
    have elsewhere : (names.foldl child directory).below? directory = none := by
      rw [below?, components, single, if_neg]
      cases names with
      | nil => exact absurd rfl filled
      | cons name names => simp
    rw [relativeTo, elsewhere]
    exact text
  · have several : directory.components ≠ [.here] := fun single => here (same_iff.2 single)
    rw [if_neg here] at text
    rw [if_neg several] at components
    split at text
    · next ended => exact text_relativeTo text ended components isName filled
    · refine text_relativeTo text ?_ components isName filled
      rw [String.toList_append]
      exact List.getLast?_concat

end FileSystem

end BuildTargets
