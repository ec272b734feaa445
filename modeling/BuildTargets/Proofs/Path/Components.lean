import BuildTargets.Path
import BuildTargets.Text.Split
import Mathlib.Data.List.TakeWhile

/-!
# Components of written paths

A path is a lead (the root, or a `.` at its start) and the steps that its parts between separators
stand for. Joining one more step to a path adds it to the components, so that the path written from
some components has these components again.
-/

namespace BuildTargets

open Text

namespace Text

variable {separator : Char} {a b : List Char}

theorem split_append (a b : List Char) :
    split separator (a ++ separator :: b) = split separator a ++ split separator b := by
  induction a with
  | nil => simp [split]
  | cons c a ih =>
    rw [List.cons_append, split, split, ih]
    split
    · rfl
    · have filled := split_ne_nil separator a
      cases parts : split separator a with
      | nil => exact absurd parts filled
      | cons part later => rfl

theorem split_of_not_mem (h : separator ∉ a) : split separator a = [a] := by
  induction a with
  | nil => rfl
  | cons c a ih =>
    rw [List.mem_cons, not_or] at h
    rw [split, if_neg (Ne.symm h.1), ih h.2]

end Text

namespace Path

/-! ## Parts of a path -/

/-- What a part between separators stands for: an empty one and `.` do not count. -/
def Component.ofPart? (part : List Char) : Option Component :=
  if part = [] ∨ part = ['.'] then none
  else if part = ['.', '.'] then some .up
  else some (.name (String.ofList part))

/-- A component that a part between separators can stand for. -/
def Component.IsStep (component : Component) : Prop :=
  ∃ part, '/' ∉ part ∧ ofPart? part = some component

/-- A text that is the name of a file or a directory. -/
def IsName (name : String) : Prop :=
  '/' ∉ name.toList ∧ name.toList ≠ [] ∧ name.toList ≠ ['.'] ∧ name.toList ≠ ['.', '.']

instance (name : String) : Decidable (IsName name) := inferInstanceAs (Decidable (_ ∧ _))

theorem IsName.isStep {name : String} (h : IsName name) : (Component.name name).IsStep := by
  obtain ⟨slash, empty, dot, dots⟩ := h
  refine ⟨name.toList, slash, ?_⟩
  rw [Component.ofPart?, if_neg (by simp [empty, dot]), if_neg dots, String.ofList_toList]

theorem isStep_names {names : List String} (isName : ∀ name ∈ names, IsName name) :
    ∀ step ∈ names.map Component.name, step.IsStep := by
  intro step mem
  obtain ⟨name, inside, rfl⟩ := List.mem_map.1 mem
  exact (isName name inside).isStep

theorem isStep_up : Component.up.IsStep := ⟨['.', '.'], by decide, by decide⟩

theorem Component.IsStep.cases {component : Component} (h : component.IsStep) :
    component = .up ∨ ∃ name, component = .name name ∧ IsName name := by
  obtain ⟨part, slash, stands⟩ := h
  unfold ofPart? at stands
  split at stands
  · cases stands
  · next plain =>
    rw [not_or] at plain
    split at stands
    · cases stands
      exact .inl rfl
    · next dots =>
      cases stands
      refine .inr ⟨_, rfl, ?_⟩
      rw [IsName, String.toList_ofList]
      exact ⟨slash, plain.1, plain.2, dots⟩

/-- A step is written as the part that stands for it, which is neither empty nor `.`. -/
theorem Component.IsStep.written {component : Component} (h : component.IsStep) :
    '/' ∉ component.text.toList ∧ component.text.toList ≠ [] ∧ component.text.toList ≠ ['.'] ∧
      ofPart? component.text.toList = some component := by
  rcases h.cases with rfl | ⟨name, rfl, slash, empty, dot, dots⟩
  · exact ⟨by decide, by decide, by decide, by decide⟩
  · refine ⟨slash, empty, dot, ?_⟩
    show ofPart? name.toList = _
    rw [ofPart?, if_neg (by simp [empty, dot]), if_neg dots, String.ofList_toList]

/-! ## Lead and steps -/

/-- The component at the start of a path that no part between separators stands for. -/
def lead (text : List Char) : List Component :=
  if text.head? = some '/' then [.root]
  else if text.takeWhile (· != '/') = ['.'] then [.here]
  else []

def steps (text : List Char) : List Component := (split '/' text).filterMap Component.ofPart?

theorem steps_append (a b : List Char) : steps (a ++ '/' :: b) = steps a ++ steps b := by
  rw [steps, split_append, List.filterMap_append]
  rfl

@[simp] theorem steps_nil : steps [] = [] := rfl

theorem steps_of_not_mem {part : List Char} (slash : '/' ∉ part) :
    steps part = (Component.ofPart? part).toList := by
  rw [steps, split_of_not_mem slash, List.filterMap_cons]
  cases Component.ofPart? part <;> rfl

theorem isStep_of_mem_steps {text : List Char} {component : Component}
    (h : component ∈ steps text) : component.IsStep := by
  obtain ⟨part, mem, stands⟩ := List.mem_filterMap.1 h
  exact ⟨part, not_mem_of_mem_split mem, stands⟩

theorem takeWhile_append_slash (a b : List Char) :
    (a ++ '/' :: b).takeWhile (· != '/') = a.takeWhile (· != '/') := by
  induction a with
  | nil => simp
  | cons c a ih => rw [List.cons_append, List.takeWhile_cons, List.takeWhile_cons, ih]

theorem lead_append {a : List Char} (filled : a ≠ []) (b : List Char) :
    lead (a ++ '/' :: b) = lead a := by
  rw [lead, lead, takeWhile_append_slash, List.head?_append]
  cases a with
  | nil => exact absurd rfl filled
  | cons c a => rfl

theorem takeWhile_of_not_mem {part : List Char} (slash : '/' ∉ part) :
    part.takeWhile (· != '/') = part :=
  List.takeWhile_eq_self_iff.2 fun _ mem => bne_iff_ne.2 fun same => slash (same ▸ mem)

theorem lead_of_not_mem {part : List Char} (slash : '/' ∉ part) (dot : part ≠ ['.']) :
    lead part = [] := by
  have head : part.head? ≠ some '/' := fun h => slash (List.mem_of_head? h)
  rw [lead, if_neg head, takeWhile_of_not_mem slash, if_neg dot]

theorem component_pieceOf (first : Bool) (start : Nat) (part : List Char) :
    (pieceOf first start part).map Piece.component =
      (if first = true ∧ part = ['.'] then [.here] else []) ++
        (Component.ofPart? part).toList := by
  unfold pieceOf Component.ofPart?
  by_cases empty : part = []
  · simp [empty]
  · by_cases dot : part = ['.']
    · cases first <;> simp [dot]
    · by_cases dots : part = ['.', '.']
      · simp [dots]
      · simp [empty, dot, dots]

/-- The current name and the parts that follow it, the first of which alone may be a `.` that
counts. -/
theorem component_piecesFrom (first : Bool) (start : Nat) (name rest : List Char)
    (slash : '/' ∉ name) :
    (piecesFrom first start name rest).map Piece.component =
      (if first = true ∧ (name.reverse ++ rest).takeWhile (· != '/') = ['.'] then [.here]
        else []) ++ steps (name.reverse ++ rest) := by
  induction rest generalizing first start name with
  | nil =>
    have slash' : '/' ∉ name.reverse := by simpa using slash
    rw [piecesFrom, component_pieceOf, List.append_nil, takeWhile_of_not_mem slash',
      steps_of_not_mem slash']
  | cons c rest ih =>
    rw [piecesFrom]
    by_cases sep : c = '/'
    · subst sep
      have slash' : '/' ∉ name.reverse := by simpa using slash
      have later := ih false (start + name.length + 1) [] List.not_mem_nil
      rw [if_pos rfl, List.map_append, component_pieceOf, later, steps_append,
        takeWhile_append_slash, takeWhile_of_not_mem slash', steps_of_not_mem slash',
        List.append_assoc]
      simp
    · have inner : '/' ∉ c :: name := by simp [slash, Ne.symm sep]
      rw [if_neg sep, ih first start (c :: name) inner]
      simp

/-- The components of a path are its lead and its steps. -/
theorem components_eq (path : Path) :
    path.components = lead path.text.toList ++ steps path.text.toList := by
  rw [components, pieces]
  split
  · next rest text =>
    have later := component_piecesFrom false 1 [] rest List.not_mem_nil
    have whole : steps ('/' :: rest) = steps rest := steps_append [] rest
    rw [List.map_cons, later, text, whole, lead]
    simp
  · next text =>
    have relative : path.text.toList.head? ≠ some '/' := by
      intro head
      obtain ⟨rest, eq⟩ := List.head?_eq_some_iff.1 head
      exact text rest eq
    have later := component_piecesFrom true 0 [] path.text.toList List.not_mem_nil
    rw [later, lead, if_neg relative]
    simp

/-- Only the first component of a path is not a step. -/
theorem isStep_of_mem_tail_components {path : Path} {component : Component}
    (h : component ∈ path.components.tail) : component.IsStep := by
  rw [components_eq, lead] at h
  split at h
  · exact isStep_of_mem_steps h
  · split at h
    · exact isStep_of_mem_steps h
    · exact isStep_of_mem_steps (List.mem_of_mem_tail h)

theorem isAbsolute_iff (path : Path) :
    path.isAbsolute = true ↔ path.components.head? = some .root := by
  rw [isAbsolute, beq_iff_eq, components_eq, lead]
  by_cases head : path.text.toList.head? = some '/'
  · simp [head]
  · simp only [head, if_false, false_iff]
    split
    · simp
    · intro first
      rcases (isStep_of_mem_steps (List.mem_of_head? first)).cases with h | ⟨name, h, -⟩ <;> cases h

/-! ## Joining -/

theorem isAbsolute_join {base : Path} (absolute : base.isAbsolute = true) (path : Path) :
    (base.join path).isAbsolute = true := by
  have behind : ∀ added : String, isAbsolute ⟨base.text ++ added⟩ = true := by
    intro added
    rw [isAbsolute, beq_iff_eq] at absolute ⊢
    rw [String.toList_append, List.head?_append, absolute]
    rfl
  unfold join
  split
  · assumption
  · split
    · exact behind path.text
    · rw [String.append_assoc]
      exact behind ("/" ++ path.text)

/-! ## Adding steps -/

@[simp] theorem components_empty : components ⟨""⟩ = [] := rfl

theorem components_join_relative (path : Path) {other : Path} (relative : other.isAbsolute = false)
    (filled : path.text ≠ "") :
    (path.join other).components = path.components ++ steps other.text.toList := by
  have chars : path.text.toList ≠ [] := by simpa using filled
  rw [join, relative, if_neg Bool.false_ne_true]
  by_cases ended : path.text.toList.getLast? = some '/'
  · obtain ⟨before, text⟩ := List.getLast?_eq_some_iff.1 ended
    rw [if_pos (by simp [ended]), components_eq, components_eq]
    dsimp only
    rw [String.toList_append, text, List.append_assoc, List.singleton_append, steps_append,
      steps_append, steps_nil, List.append_nil, ← List.append_assoc]
    congr 2
    cases before with
    | nil => rfl
    | cons c before => rw [lead_append (by simp), lead_append (by simp)]
  · rw [if_neg (by simp [ended, filled]), components_eq, components_eq]
    dsimp only
    rw [String.toList_append, String.toList_append, List.append_assoc,
      show "/".toList = ['/'] from rfl, List.singleton_append, steps_append,
      lead_append chars, List.append_assoc]

theorem components_join_steps (path : Path) {other : Path} (bare : lead other.text.toList = []) :
    (path.join other).components = path.components ++ steps other.text.toList := by
  have relative : other.isAbsolute = false := by
    rw [isAbsolute, beq_eq_false_iff_ne]
    intro head
    rw [lead, if_pos head] at bare
    cases bare
  by_cases blank : path.text = ""
  · obtain ⟨text⟩ := path
    subst blank
    rw [join, relative, if_neg Bool.false_ne_true, if_pos (by simp), components_eq,
      components_empty]
    dsimp only
    rw [String.empty_append, bare]
  · exact components_join_relative path relative blank

theorem components_join (path : Path) {step : Component} (h : step.IsStep) :
    (path.join ⟨step.text⟩).components = path.components ++ [step] := by
  obtain ⟨slash, empty, dot, stands⟩ := h.written
  have added : steps step.text.toList = [step] := by
    rw [steps_of_not_mem slash, stands]
    rfl
  rw [← added]
  exact components_join_steps path (lead_of_not_mem slash dot)

theorem components_join_name (path : Path) {name : String} (h : IsName name) :
    (path.join ⟨name⟩).components = path.components ++ [.name name] := by
  have join := path.components_join h.isStep
  rwa [Component.text] at join

theorem components_foldl_join {added : List Component} (h : ∀ step ∈ added, step.IsStep)
    (path : Path) :
    (added.foldl (fun path step => path.join ⟨step.text⟩) path).components =
      path.components ++ added := by
  induction added generalizing path with
  | nil => simp
  | cons step added ih =>
    rw [List.foldl_cons, ih (fun other mem => h other (List.mem_cons_of_mem _ mem)),
      components_join path (h step List.mem_cons_self), List.append_assoc]
    rfl

theorem components_ofComponents {written : List Component} (h : ∀ step ∈ written, step.IsStep) :
    (ofComponents written).components = written := by
  rw [ofComponents, components_foldl_join h]
  rfl

theorem components_ofComponents_root {written : List Component}
    (h : ∀ step ∈ written, step.IsStep) :
    (ofComponents (.root :: written)).components = .root :: written := by
  rw [ofComponents, List.foldl_cons, components_foldl_join h]
  rfl

end Path

end BuildTargets
