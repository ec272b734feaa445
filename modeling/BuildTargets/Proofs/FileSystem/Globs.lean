import BuildTargets.Proofs.FileSystem.Below
import BuildTargets.Proofs.Glob.Reading

/-!
# Globs below a directory

A glob below a directory is one text, the escaped path of the directory and the pattern behind it.
It is read as a glob for each step that leads to the directory and the globs of the pattern, so
following it comes to following the pattern from the directory.
-/

namespace BuildTargets

namespace Text

/-- A part between separators that is written out. -/
def IsPart (part : String) : Prop := '/' ∉ part.toList ∧ part.toList ≠ []

theorem split_intercalate {parts : List String} (isPart : ∀ part ∈ parts, IsPart part)
    (filled : parts ≠ []) : split '/' ("/".intercalate parts).toList = parts.map String.toList := by
  induction parts with
  | nil => exact absurd rfl filled
  | cons part parts ih =>
    rw [List.forall_mem_cons] at isPart
    by_cases last : parts = []
    · rw [last, String.intercalate_singleton, split_of_not_mem isPart.1.1]
      rfl
    · rw [Path.toList_intercalate_cons last, split_append, split_of_not_mem isPart.1.1,
        ih isPart.2 last]
      rfl

theorem intercalate_ne_nil {parts : List String} (isPart : ∀ part ∈ parts, IsPart part)
    (filled : parts ≠ []) : ("/".intercalate parts).toList ≠ [] := by
  obtain ⟨part, later, rfl⟩ := List.exists_cons_of_ne_nil filled
  intro none
  have first := split_intercalate isPart filled
  rw [none] at first
  exact (isPart part List.mem_cons_self).2 (List.cons.inj first).1.symm

theorem getLast?_intercalate {parts : List String} (isPart : ∀ part ∈ parts, IsPart part) :
    ("/".intercalate parts).toList.getLast? ≠ some '/' := by
  induction parts with
  | nil => nofun
  | cons part parts ih =>
    rw [List.forall_mem_cons] at isPart
    by_cases last : parts = []
    · rw [last, String.intercalate_singleton]
      exact fun ended => isPart.1.1 (List.mem_of_getLast? ended)
    · rw [Path.toList_intercalate_cons last, List.append_cons,
        List.getLast?_append_of_ne_nil _ (intercalate_ne_nil isPart.2 last)]
      exact ih isPart.2

theorem head?_intercalate {parts : List String} (isPart : ∀ part ∈ parts, IsPart part) :
    ("/".intercalate parts).toList.head? ≠ some '/' := by
  cases parts with
  | nil => nofun
  | cons part parts =>
    obtain ⟨slash, filled⟩ := isPart part List.mem_cons_self
    have first : part.toList.head? ≠ some '/' := fun head => slash (List.mem_of_head? head)
    by_cases last : parts = []
    · rwa [last, String.intercalate_singleton]
    · rwa [Path.toList_intercalate_cons last, List.head?_append_of_ne_nil _ filled]

end Text

namespace Glob

open Text

theorem escape_append (a b : String) : escape (a ++ b) = escape a ++ escape b := by
  rw [← String.toList_inj, String.toList_append, toList_escape, toList_escape, toList_escape,
    String.toList_append, List.flatMap_append]

theorem escape_slash : escape "/" = "/" := by decide

theorem escape_intercalate (parts : List String) :
    escape ("/".intercalate parts) = "/".intercalate (parts.map escape) := by
  induction parts with
  | nil => rfl
  | cons part parts ih =>
    by_cases last : parts = []
    · rw [last, String.intercalate_singleton, List.map_singleton, String.intercalate_singleton]
    · rw [String.intercalate_cons_of_ne_nil last, List.map_cons,
        String.intercalate_cons_of_ne_nil (by simpa using last), escape_append, escape_append,
        escape_slash, ih]

end Glob

namespace FileSystem

open BuildTargets.Path Text

variable {files : FileSystem} {directory start found : Path} {place : List String}
  {globs : List Glob} {steps : List Component}

/-! ## Following steps -/

theorem mem_children {name : String} {path : Path} (h : (name, path) ∈ files.children directory) :
    path = child directory name := by
  unfold children at h
  split at h
  · obtain ⟨⟨other, _⟩, -, eq⟩ := List.mem_map.1 h
    cases eq
    rfl
  · cases h

theorem mem_children_of_lookup {name : String} {entries : List (String × Entry)}
    (found : files.lookup directory = .ok (place, .directory entries))
    (held : (entries.lookup name).isSome) :
    (name, child directory name) ∈ files.children directory := by
  rw [children, entry?, found]
  obtain ⟨entry, held⟩ := Option.isSome_iff_exists.1 held
  obtain ⟨before, behind, rfl, -⟩ := List.lookup_eq_some_iff.1 held
  exact List.mem_map.2 ⟨(name, entry), List.mem_append_right _ List.mem_cons_self, rfl⟩

theorem mem_follow_of_literally {name : String}
    (h : found ∈ files.follow (Glob.literally name :: globs) directory) :
    found ∈ files.follow globs (child directory name) := by
  rw [follow.eq_def] at h
  dsimp only at h
  split at h
  · next other literal =>
    rw [Glob.literal?_literally literal] at h
    exact (List.mem_ite_nil_right.1 h).2
  · next literal =>
    rw [Glob.isDeep_literally, if_neg Bool.false_ne_true, List.mem_append] at h
    rcases h with named | special
    · obtain ⟨⟨other, place⟩, inside, later⟩ := List.mem_flatMap.1 named
      obtain ⟨matched, deeper⟩ := List.mem_ite_nil_right.1 later
      obtain rfl : other = name := Glob.matchesPath_literally.1 matched
      rw [← mem_children inside]
      exact deeper
    · -- `.` and `..` are written without wildcards.
      obtain ⟨other, dots, later⟩ := List.mem_flatMap.1 (List.mem_ite_nil_right.1 special).2
      obtain ⟨matched, -⟩ := List.mem_ite_nil_right.1 later
      rw [Glob.matchesPath_literally] at matched
      subst matched
      simp only [List.mem_cons, List.not_mem_nil, or_false] at dots
      rcases dots with rfl | rfl <;> exact absurd literal (by decide)

/-- A step from a directory to what is there can be followed by the glob for it. -/
theorem mem_follow_literally {step : Component} {entry : Entry} (plain : Plain directory)
    (isStep : step.IsStep) (there : files.lookup (enter directory step) = .ok (place, entry))
    (h : found ∈ files.follow globs (enter directory step)) :
    found ∈ files.follow (Glob.literally step.text :: globs) directory := by
  obtain ⟨above, entries, held, located⟩ := lookup_enter plain isStep there
  rw [follow.eq_def]
  dsimp only
  split
  · next other literal =>
    rw [Glob.literal?_literally literal]
    refine List.mem_ite_nil_right.2 ⟨?_, h⟩
    split
    · rw [isDirectory, entry?, held]
      rfl
    · show files.contains (enter directory step) = true
      rw [contains, entry?, there]
      rfl
  · next literal =>
    rw [Glob.isDeep_literally, if_neg Bool.false_ne_true, List.mem_append]
    left
    rcases isStep.cases with rfl | ⟨name, rfl, -⟩
    · exact absurd literal (by decide)
    · obtain ⟨entries', there', named⟩ := locate_step_eq_ok located (.inr ⟨name, rfl⟩)
      have same : entries' = entries := by
        rw [(lookup_eq_ok held).2.2.1] at there'
        cases there'
        rfl
      refine List.mem_flatMap.2 ⟨_, mem_children_of_lookup held (same ▸ (named name rfl).2), ?_⟩
      exact List.mem_ite_nil_right.2 ⟨Glob.matchesPath_literally.2 rfl, h⟩

/-- The steps that lead to a directory from the root or from the working directory, where a search
starts. -/
structure Course (start directory : Path) (steps : List Component) : Prop where
  starts : start = ⟨"/"⟩ ∨ start = ⟨"."⟩ ∧ steps ≠ []
  isStep : steps = [.here] ∧ start = ⟨"."⟩ ∨ ∀ step ∈ steps, step.IsStep
  leads : steps.foldl enter start = directory
  text : directory.text = before start ++ "/".intercalate (steps.map Component.text)

def literals (steps : List Component) : List Glob :=
  steps.map fun step => Glob.literally step.text

theorem mem_follow_of_literals
    (h : found ∈ files.follow (literals steps ++ globs) directory) :
    found ∈ files.follow globs (steps.foldl enter directory) := by
  induction steps generalizing directory with
  | nil => exact h
  | cons step steps ih => exact ih (mem_follow_of_literally h)

theorem mem_follow_literals {entry : Entry} (plain : Plain directory)
    (isStep : ∀ step ∈ steps, step.IsStep)
    (there : files.lookup (steps.foldl enter directory) = .ok (place, entry))
    (h : found ∈ files.follow globs (steps.foldl enter directory)) :
    found ∈ files.follow (literals steps ++ globs) directory := by
  induction steps generalizing directory with
  | nil => exact h
  | cons step steps ih =>
    rw [List.forall_mem_cons] at isStep
    have plain' := plain.enter isStep.1
    obtain ⟨between, inner, first, -⟩ := lookup_foldl_enter plain' isStep.2 there
    exact mem_follow_literally plain isStep.1 first (ih plain' isStep.2 there h)

/-- Following the steps to a directory comes to following what is behind them from there. -/
theorem Course.mem_follow (course : Course start directory steps)
    (there : files.isDirectory directory = true) :
    found ∈ files.follow (literals steps ++ globs) start ↔
      found ∈ files.follow globs directory := by
  obtain ⟨place, entries, held⟩ := isDirectory_eq_true there
  refine ⟨fun h => course.leads ▸ mem_follow_of_literals h, fun h => ?_⟩
  rcases course.isStep with ⟨rfl, rfl⟩ | isStep
  · -- The working directory is entered from itself.
    obtain rfl : directory = ⟨"."⟩ := course.leads.symm
    have literal : (Glob.literally ".").literal? = some "." := by decide
    show found ∈ files.follow (Glob.literally "." :: globs) ⟨"."⟩
    rw [follow.eq_def]
    dsimp only
    rw [literal]
    dsimp only
    refine List.mem_ite_nil_right.2 ⟨?_, h⟩
    rw [if_pos (Or.inl rfl)]
    exact there
  · have plain : Plain start := by
      rcases course.starts with rfl | ⟨rfl, -⟩ <;> exact plain_of_normal rfl
    have leads := course.leads
    subst leads
    exact mem_follow_literals plain isStep held h

/-! ## The written glob -/

theorem Course.isPart (course : Course start directory steps) :
    ∀ part ∈ steps.map Component.text, IsPart part := by
  intro part mem
  obtain ⟨step, inside, rfl⟩ := List.mem_map.1 mem
  rcases course.isStep with ⟨rfl, -⟩ | isStep
  · rw [List.mem_singleton.1 inside]
    exact ⟨by decide, by decide⟩
  · obtain ⟨slash, filled, -⟩ := (isStep step inside).written
    exact ⟨slash, filled⟩

def escapes (steps : List Component) : List String :=
  steps.map fun step => Glob.escape step.text

/-- Between the escaped directory and the pattern stands a separator, which may be the last
character of the directory. -/
theorem globText_cases {pattern : String} (plain : Plain directory)
    (relative : isAbsolute ⟨pattern⟩ = false) :
    (directory.text.toList.getLast? = some '/' ∧
        globText directory pattern = Glob.escape directory.text ++ pattern) ∨
      (directory.text.toList.getLast? ≠ some '/' ∧
        globText directory pattern = Glob.escape directory.text ++ "/" ++ pattern) := by
  have filled : Glob.escape directory.text ≠ "" := by
    rw [Ne, ← String.toList_inj, Glob.toList_escape]
    intro blank
    exact plain.filled (String.toList_inj.1 (Glob.flatMap_escapeChar_eq_nil blank))
  have ends : (Glob.escape directory.text).toList.getLast? = some '/' ↔
      directory.text.toList.getLast? = some '/' := by
    rw [Glob.toList_escape]
    exact Glob.getLast?_flatMap_escapeChar
  rw [globText, join, relative, if_neg Bool.false_ne_true]
  by_cases ended : directory.text.toList.getLast? = some '/'
  · exact .inl ⟨ended, by rw [if_pos (by simp [ends.2 ended])]⟩
  · exact .inr ⟨ended, by rw [if_neg (by simp [filled, mt ends.1 ended])]⟩

/-- The glob for a pattern below a directory is written as the escaped steps to the directory and
the parts of the pattern. -/
theorem Course.globText_eq (course : Course start directory steps) (plain : Plain directory)
    {parts : List String} (isPart : ∀ part ∈ parts, IsPart part) (filled : parts ≠ []) :
    globText directory ("/".intercalate parts) =
      before start ++ "/".intercalate (escapes steps ++ parts) := by
  have relative : isAbsolute ⟨"/".intercalate parts⟩ = false := by
    rw [isAbsolute, beq_eq_false_iff_ne]
    exact head?_intercalate isPart
  have root : Glob.escape (before start) = before start := by
    rcases course.starts with rfl | ⟨rfl, -⟩ <;> decide
  have escaped : Glob.escape directory.text = before start ++ "/".intercalate (escapes steps) := by
    rw [course.text, Glob.escape_append, root, Glob.escape_intercalate, List.map_map]
    rfl
  have written := course.text
  by_cases top : steps = []
  · obtain rfl : start = ⟨"/"⟩ := course.starts.resolve_right fun inner => inner.2 top
    subst top
    rcases globText_cases plain relative with ⟨-, eq⟩ | ⟨apart, -⟩
    · rw [eq, escaped]
      rfl
    · rw [written] at apart
      exact absurd (by decide) apart
  · have several : steps.map Component.text ≠ [] := by simpa using top
    have apart : directory.text.toList.getLast? ≠ some '/' := by
      rw [written, String.toList_append,
        List.getLast?_append_of_ne_nil _ (intercalate_ne_nil course.isPart several)]
      exact getLast?_intercalate course.isPart
    rcases globText_cases plain relative with ⟨ended, -⟩ | ⟨-, eq⟩
    · exact absurd ended apart
    · have some : escapes steps ≠ [] := by simpa [escapes] using top
      rw [eq, escaped, String.intercalate_append_of_ne_nil some filled]
      simp only [String.append_assoc]

/-- A written glob is followed from the root or from the working directory, part by part. One that
ends in a separator leads to directories only. -/
theorem globPaths_ok_iff {text : String} {places : List Path} (rest : List Char)
    (starts : start = ⟨"/"⟩ ∧ text.toList = '/' :: rest ∨
      start = ⟨"."⟩ ∧ text.toList = rest ∧ rest.head? ≠ some '/') :
    files.globPaths text = .ok places ↔ (∃ glob, Glob.read text = .ok glob) ∧
      ∃ globs, (splitEnded '/' rest).mapM (fun part => Glob.read (String.ofList part)) =
          .ok globs ∧
        places =
          let found := files.follow (if rest.isEmpty then globs ++ [⟨[]⟩] else globs) start
          if text.toList.getLast? = some '/' then found.filter files.isDirectory else found := by
  have goes : files.globPaths text = (do
      discard (Glob.read text)
      let globs ← (splitEnded '/' rest).mapM fun part => Glob.read (String.ofList part)
      let found := files.follow (if rest.isEmpty then globs ++ [⟨[]⟩] else globs) start
      if text.toList.getLast? = some '/' then pure (found.filter files.isDirectory)
      else pure found) := by
    unfold globPaths
    rcases starts with ⟨rfl, chars⟩ | ⟨rfl, chars, relative⟩
    · rw [chars]
      rfl
    · rw [chars]
      cases rest with
      | nil => rfl
      | cons c rest =>
        have slash : ¬c = '/' := fun same => relative (congrArg some same)
        simp only [List.cons.injEq, slash, false_and, imp_self, implies_true]
  rw [goes]
  simp only [bind, Except.bind, pure, Except.pure, discard, Functor.discard, Functor.mapConst,
    Except.map, Function.comp]
  constructor
  · intro h
    split at h
    · cases h
    · next discarded =>
      split at discarded
      · cases discarded
      · next glob read =>
        split at h
        · cases h
        · next globs reads =>
          refine ⟨⟨glob, read⟩, globs, reads, ?_⟩
          split at h
          · next ended =>
            cases h
            rw [if_pos ended]
          · next ended =>
            cases h
            rw [if_neg ended]
  · rintro ⟨⟨glob, read⟩, globs, reads, rfl⟩
    rw [read, reads]
    dsimp only
    split <;> rfl

theorem mem_allBelow_iff {name : String} {entry : Entry} :
    (found, name, entry) ∈ files.allBelow directory ↔
      ∃ held below, files.entry? directory = some held ∧ (below, entry) ∈ held.descendants ∧
        found = below.foldl child directory ∧ name = below.getLast?.getD "" := by
  unfold allBelow
  constructor
  · intro mem
    split at mem
    · next held there =>
      obtain ⟨⟨below, _⟩, inside, eq⟩ := List.mem_map.1 mem
      cases eq
      exact ⟨held, below, there, inside, rfl, rfl⟩
    · cases mem
  · rintro ⟨held, below, there, inside, rfl, rfl⟩
    rw [there]
    exact List.mem_map.2 ⟨_, inside, rfl⟩

end FileSystem

end BuildTargets
