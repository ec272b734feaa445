import BuildTargets.Proofs.FileSystem.Respelling
import BuildTargets.Proofs.Glob.Parts

/-!
# Directories as they are written

A directory is written as parts with separators between them, from the root or from a name in the
working directory on. A glob below the directory has these parts, escaped, before those of the
pattern, so following it comes to following the pattern from where the parts lead.
-/

namespace BuildTargets

namespace Path

def OnlyNames (path : Path) : Prop := .here ∉ path.components ∧ .up ∉ path.components

instance (path : Path) : Decidable path.OnlyNames := inferInstanceAs (Decidable (_ ∧ _))

theorem Component.text_of_ofPart? {part : String} {component : Component}
    (h : ofPart? part.toList = some component) : component.text = part := by
  unfold ofPart? at h
  split at h
  · cases h
  · split at h
    · next dots =>
      cases h
      exact String.toList_inj.1 dots.symm
    · cases h
      exact String.ofList_toList

end Path

namespace FileSystem

open BuildTargets.Path Text

variable {files : FileSystem} {start directory base path found : Path} {place : List String}
  {parts first later : List String} {pattern name part : String} {globs : List Glob}

/-! ## Where a directory begins -/

/-- Where a written directory begins: at the root, or with a name in the working directory. -/
inductive Begins : Path → List String → Path → Prop
  | root : Begins ⟨"/"⟩ [] ⟨"/"⟩
  | name {name : String} (isName : IsName name) : Begins ⟨"."⟩ [name] ⟨name⟩

namespace Begins

theorem child_here (name : String) : child ⟨"."⟩ name = ⟨name⟩ := by
  rw [child, if_pos (same_iff.2 rfl)]

theorem leads (h : Begins start first directory) : first.foldl child start = directory := by
  cases h with
  | root => rfl
  | name => exact child_here _

theorem normal (h : Begins start first directory) : directory.normalize = directory := by
  cases h with
  | root => decide
  | name isName =>
    rw [← child_here]
    exact (normal_child rfl isName).1

theorem bare (h : Begins start first directory) : Bare directory := by
  cases h with
  | root => exact ⟨by decide, by decide⟩
  | @name name isName =>
    have added : (enter ⟨"."⟩ (.name name)).components = _ := components_enter isName.isStep
    have here : components ⟨"."⟩ = [.here] := by decide
    rw [if_pos here, enter, Component.text, child_here] at added
    refine ⟨fun blank => isName.2.1 (by simpa using blank), ?_⟩
    rw [added]
    simp

theorem text (h : Begins start first directory) :
    before directory = before start ++ slashed first := by
  cases h with
  | root => decide
  | @name name isName =>
    have written : before (enter ⟨"."⟩ (.name name)) = _ :=
      before_enter (plain_of_normal rfl) isName.isStep
    rw [enter, Component.text, child_here] at written
    have here : before ⟨"."⟩ = "" := by decide
    rw [written, here, slashed, slashed, String.empty_append, String.append_empty]

theorem slash (h : Begins start first directory) : ∀ part ∈ first, '/' ∉ part.toList := by
  cases h with
  | root => exact List.forall_mem_nil _
  | name isName => exact List.forall_mem_singleton.2 isName.1

theorem mem_follow (h : Begins start first directory) (there : files.isDirectory directory = true) :
    found ∈ files.follow (first.map Glob.literally ++ globs) start ↔
      found ∈ files.follow globs directory := by
  cases h with
  | root => exact Iff.rfl
  | @name name isName =>
    obtain ⟨place, entries, held⟩ := isDirectory_eq_true there
    have step : enter ⟨"."⟩ (.name name) = ⟨name⟩ := child_here name
    rw [← step] at held ⊢
    exact ⟨mem_follow_of_literally, mem_follow_literally (plain_of_normal rfl) isName.isStep held⟩

end Begins

/-! ## The parts behind it -/

/-- How a directory is written: the parts that it begins with, and those that follow. -/
structure Written (base start : Path) (first : List String) (directory : Path)
    (later : List String) : Prop where
  begins : Begins start first directory
  slash : ∀ part ∈ later, '/' ∉ part.toList
  text : before base = before directory ++ slashed later

theorem Written.slash_parts (written : Written base start first directory later) :
    ∀ part ∈ first ++ later, '/' ∉ part.toList :=
  List.forall_mem_append.2 ⟨written.begins.slash, written.slash⟩

theorem components_slashed {front : String} (slash : ∀ part ∈ later, '/' ∉ part.toList) :
    components ⟨front ++ "/" ++ slashed later⟩ =
      components ⟨front ++ "/"⟩ ++ later.filterMap fun part => Component.ofPart? part.toList := by
  induction later generalizing front with
  | nil =>
    rw [slashed, String.append_empty, List.filterMap_nil, List.append_nil]
  | cons part later ih =>
    rw [List.forall_mem_cons] at slash
    have next : front ++ "/" ++ slashed (part :: later) =
        front ++ "/" ++ part ++ "/" ++ slashed later := by
      rw [slashed]
      simp only [String.append_assoc]
    have filled : front ++ "/" ++ part ≠ "" := by simp
    rw [next, ih slash.2, components_ended filled, components_slash front slash.1,
      List.append_assoc, List.filterMap_cons]
    cases Component.ofPart? part.toList <;> rfl

theorem filterMap_names {names : List String} (isName : ∀ name ∈ names, IsName name) :
    names.filterMap (fun part => Component.ofPart? part.toList) = names.map .name := by
  induction names with
  | nil => rfl
  | cons name names ih =>
    rw [List.forall_mem_cons] at isName
    obtain ⟨-, -, -, stands⟩ := isName.1.isStep.written
    rw [Component.text] at stands
    rw [List.filterMap_cons, stands, ih isName.2]
    rfl

theorem exists_names_of_parts (slash : ∀ part ∈ parts, '/' ∉ part.toList)
    (up : .up ∉ parts.filterMap fun part => Component.ofPart? part.toList) :
    ∃ names : List String, names.Sublist parts ∧ (∀ name ∈ names, IsName name) ∧
      parts.filterMap (fun part => Component.ofPart? part.toList) = names.map .name := by
  induction parts with
  | nil => exact ⟨[], List.Sublist.refl _, List.forall_mem_nil _, rfl⟩
  | cons part parts ih =>
    rw [List.forall_mem_cons] at slash
    rw [List.filterMap_cons] at up ⊢
    cases stands : Component.ofPart? part.toList with
    | none =>
      rw [stands] at up
      obtain ⟨names, shorter, isName, same⟩ := ih slash.2 up
      exact ⟨names, shorter.cons part, isName, same⟩
    | some step =>
      rw [stands] at up
      dsimp only at up ⊢
      rw [List.mem_cons, not_or] at up
      obtain ⟨names, shorter, isName, same⟩ := ih slash.2 up.2
      have isStep : step.IsStep := ⟨_, slash.1, stands⟩
      rcases isStep.cases with rfl | ⟨name, rfl, valid⟩
      · exact absurd rfl up.1
      · obtain rfl : name = part := Component.text_of_ofPart? stands
        exact ⟨name :: names, shorter.cons_cons name, List.forall_mem_cons.2 ⟨valid, isName⟩,
          by rw [same]; rfl⟩

theorem exists_written (bare : Bare base) (names : base.OnlyNames) :
    ∃ start first directory later, Written base start first directory later := by
  obtain ⟨front, ended⟩ := bare.exists_before
  have components := bare.components_before
  rw [ended] at components
  by_cases absolute : front.toList.head? = some '/'
  · obtain ⟨rest, chars⟩ := List.head?_eq_some_iff.1 absolute
    obtain ⟨later, -, slash, written⟩ := exists_slashed (String.ofList rest)
    refine ⟨_, _, _, later, .root, slash, ?_⟩
    have root : before ⟨"/"⟩ = "/" := by decide
    have whole : front = "/" ++ String.ofList rest := by
      rw [← String.toList_inj]
      simp [chars]
    rw [ended, root, ← written, whole, String.append_assoc]
  · by_cases blank : front = ""
    · refine ⟨_, _, _, [], .root, List.forall_mem_nil _, ?_⟩
      rw [ended, blank]
      decide
    · obtain ⟨parts, filled, slash, written⟩ := exists_slashed front
      obtain ⟨first, later, rfl⟩ := List.exists_cons_of_ne_nil filled
      rw [List.forall_mem_cons] at slash
      have chars : front.toList ++ ['/'] = first.toList ++ '/' :: (slashed later).toList := by
        rw [← toList_slashed_cons, ← written, String.toList_append]
        rfl
      have filled : first.toList ≠ [] := by
        intro none
        rw [none, List.nil_append, List.append_eq_cons_iff] at chars
        rcases chars with ⟨empty, -⟩ | ⟨rest, begins, -⟩
        · exact blank (by simpa using empty)
        · exact absolute (by rw [begins]; rfl)
      have all : base.components = lead first.toList ++
          ((Component.ofPart? first.toList).toList ++ steps (slashed later).toList) := by
        have whole : (front ++ "/").toList = front.toList ++ ['/'] := String.toList_append
        rw [← components, components_eq, whole, chars, lead_append filled, steps_append,
          steps_of_not_mem slash.1]
      have isName : IsName first := by
        refine ⟨slash.1, filled, fun dot => names.1 ?_, fun dots => names.2 ?_⟩
        · rw [all, dot]
          exact List.mem_append_left _ (by decide)
        · rw [all, dots]
          exact List.mem_append_right _ (List.mem_append_left _ (by decide))
      have begins := Begins.name isName
      refine ⟨_, _, _, later, begins, slash.2, ?_⟩
      have here : before ⟨"."⟩ = "" := by decide
      rw [ended, written, begins.text, here, slashed, slashed, slashed, String.empty_append,
        String.append_empty]

namespace Written

variable (written : Written base start first directory later)

include written

theorem components (bare : Bare base) : base.components =
    directory.components ++ later.filterMap fun part => Component.ofPart? part.toList := by
  obtain ⟨front, ended⟩ := written.begins.bare.exists_before
  rw [← bare.components_before, ← written.begins.bare.components_before, written.text, ended]
  exact components_slashed written.slash

/-- Where the parts lead is another spelling of the directory. -/
theorem respells (bare : Bare base) : Respells (later.foldl child directory) base := by
  obtain ⟨last, components, within⟩ := written.begins.bare.foldl_child written.slash
  refine ⟨last, bare, ?_, ?_⟩
  · rw [components, written.components bare]
  · rwa [written.text]

theorem respells_normalize (bare : Bare base) (only : base.OnlyNames) :
    Respells base.normalize base := by
  have components := written.components bare
  have up := only.2
  rw [components, List.mem_append, not_or] at up
  obtain ⟨names, shorter, isName, same⟩ := exists_names_of_parts written.slash up.2
  have slash : ∀ name ∈ names, '/' ∉ name.toList := fun name mem => (isName name mem).1
  obtain ⟨last, components', within⟩ := written.begins.bare.foldl_child slash
  have all : (names.foldl child directory).components = base.components := by
    rw [components, components', same, filterMap_names isName]
  have normal : base.normalize = names.foldl child directory := by
    rw [← (normal_foldl_child written.begins.normal isName).1]
    exact normalize_congr (same_iff.2 all.symm)
  rw [normal]
  refine ⟨last, bare, all, within.trans ?_⟩
  rw [written.text, String.toList_append, String.toList_append]
  exact (slashed_sublist shorter).append_left _

end Written

/-! ## Following the parts -/

theorem isStep_of_parts (slash : ∀ part ∈ parts, '/' ∉ part.toList) :
    ∀ step ∈ parts.filterMap (fun part => Component.ofPart? part.toList), step.IsStep := by
  intro step mem
  obtain ⟨part, inside, stands⟩ := List.mem_filterMap.1 mem
  exact ⟨_, slash part inside, stands⟩

theorem lookup_of_leading {entries : List (String × Entry)} {steps : List Component}
    (there : files.lookup base = .ok (place, .directory entries))
    (leads : base.components = path.components ++ steps) (isStep : ∀ step ∈ steps, step.IsStep)
    (fault : pathFault? path = none) :
    ∃ above inner, files.lookup path = .ok (above, .directory inner) := by
  obtain ⟨-, located, held, -⟩ := lookup_eq_ok there
  rw [leads] at located
  obtain ⟨between, first, later⟩ := locate_append_eq_ok located
  cases steps with
  | nil =>
    cases later
    exact ⟨_, _, lookup_of_locate fault first held nofun⟩
  | cons step steps =>
    have moves : step = .up ∨ ∃ name, step = .name name :=
      (isStep step List.mem_cons_self).cases.imp_right fun ⟨name, eq, _⟩ => ⟨name, eq⟩
    obtain ⟨inner, above, -⟩ := locate_step_eq_ok later moves
    exact ⟨_, _, lookup_of_locate fault first above nofun⟩

theorem mem_follow_part {entries : List (String × Entry)} (bare : Bare directory)
    (slash : '/' ∉ part.toList) (held : files.isDirectory directory = true)
    (there : files.lookup (child directory part) = .ok (place, .directory entries))
    (h : found ∈ files.follow globs (child directory part)) :
    found ∈ files.follow (Glob.literally part :: globs) directory := by
  cases stands : Component.ofPart? part.toList with
  | none =>
    -- The part is blank or `.`, so it has no wildcards.
    have literal : (Glob.literally part).literal? = some part := by
      unfold Component.ofPart? at stands
      split at stands
      · next nothing =>
        have written : part = "" ∨ part = "." :=
          nothing.imp (fun eq => String.toList_inj.1 eq) fun eq => String.toList_inj.1 eq
        rcases written with rfl | rfl <;> decide
      · split at stands <;> cases stands
    rw [follow.eq_def]
    dsimp only
    rw [literal]
    dsimp only
    refine List.mem_ite_nil_right.2 ⟨?_, h⟩
    split
    · exact held
    · rw [contains, entry?, there]
      rfl
  | some step =>
    have isStep : step.IsStep := ⟨_, slash, stands⟩
    obtain rfl : step.text = part := Component.text_of_ofPart? stands
    exact mem_follow_literally bare.plain isStep there h

theorem mem_follow_of_parts
    (h : found ∈ files.follow (parts.map Glob.literally ++ globs) directory) :
    found ∈ files.follow globs (parts.foldl child directory) := by
  induction parts generalizing directory with
  | nil => exact h
  | cons part parts ih => exact ih (mem_follow_of_literally h)

theorem mem_follow_parts {entries : List (String × Entry)}
    (there : files.lookup base = .ok (place, .directory entries)) (bare : Bare directory)
    (slash : ∀ part ∈ parts, '/' ∉ part.toList)
    (leads : base.components = directory.components ++
      parts.filterMap fun part => Component.ofPart? part.toList)
    (within : (before directory ++ slashed parts).toList.Sublist (base.text ++ "/").toList)
    (held : files.isDirectory directory = true)
    (h : found ∈ files.follow globs (parts.foldl child directory)) :
    found ∈ files.follow (parts.map Glob.literally ++ globs) directory := by
  induction parts generalizing directory with
  | nil => exact h
  | cons part parts ih =>
    rw [List.forall_mem_cons] at slash
    have bare' := bare.child slash.1
    have leads' : base.components = (child directory part).components ++
        parts.filterMap fun part => Component.ofPart? part.toList := by
      rw [leads, bare.components_child slash.1, List.append_assoc, List.filterMap_cons]
      cases Component.ofPart? part.toList <;> rfl
    have fault : pathFault? (child directory part) = none := by
      have whole : (before directory ++ slashed (part :: parts)).toList =
          (before directory ++ part).toList ++ ['/'] ++ (slashed parts).toList := by
        simp [toList_slashed_cons]
      have ended : (base.text ++ "/").toList = base.text.toList ++ ['/'] := String.toList_append
      have front := within
      rw [whole, ended] at front
      have front := (List.append_sublist_append_right _).1
        ((List.sublist_append_left _ _).trans front)
      rw [bare.child_eq slash.1] at bare' ⊢
      exact pathFault?_of_sublist (lookup_eq_ok there).1 front bare'.filled
    obtain ⟨above, inner, next⟩ := lookup_of_leading there leads' (isStep_of_parts slash.2) fault
    have held' : files.isDirectory (child directory part) = true := by
      rw [isDirectory, entry?, next]
      rfl
    exact mem_follow_part bare slash.1 held next
      (ih bare' slash.2 leads' ((bare.before_child_sublist slash.1).trans within) held' h)

theorem Begins.pathFault?_eq_none (h : Begins start first directory)
    (fault : pathFault? base = none)
    (within : (before directory).toList.Sublist (base.text ++ "/").toList) :
    pathFault? directory = none := by
  have text := h.text
  have bare := h.bare
  cases h with
  | root => decide
  | @name name isName =>
    have here : before ⟨"."⟩ = "" := by decide
    have whole : (before ⟨name⟩).toList = name.toList ++ ['/'] := by
      rw [text, here]
      simp [slashed]
    have ended : (base.text ++ "/").toList = base.text.toList ++ ['/'] := String.toList_append
    rw [whole, ended, List.append_sublist_append_right] at within
    exact pathFault?_of_sublist fault within bare.filled

/-- Following the parts that a directory is written with comes to following what is behind them from
where they lead. -/
theorem Written.mem_follow (written : Written base start first directory later) (bare : Bare base)
    (there : files.isDirectory base = true) :
    found ∈ files.follow ((first ++ later).map Glob.literally ++ globs) start ↔
      found ∈ files.follow globs (later.foldl child directory) := by
  obtain ⟨place, entries, held⟩ := isDirectory_eq_true there
  have begins := written.begins
  have leads := written.components bare
  have within : (before directory ++ slashed later).toList.Sublist (base.text ++ "/").toList := by
    rw [← written.text, bare.before_eq, String.toList_append]
    split
    · exact List.sublist_append_left _ _
    · rw [String.toList_append]
  have fault : pathFault? directory = none := by
    refine begins.pathFault?_eq_none (lookup_eq_ok held).1 (List.Sublist.trans ?_ within)
    rw [String.toList_append]
    exact List.sublist_append_left _ _
  obtain ⟨above, inner, next⟩ :=
    lookup_of_leading held leads (isStep_of_parts written.slash) fault
  have held' : files.isDirectory directory = true := by
    rw [isDirectory, entry?, next]
    rfl
  rw [List.map_append, List.append_assoc, begins.mem_follow held']
  exact ⟨mem_follow_of_parts, mem_follow_parts held begins.bare written.slash leads within held'⟩

/-! ## The written glob -/

theorem escape_slashed (parts : List String) :
    Glob.escape (slashed parts) = slashed (parts.map Glob.escape) := by
  induction parts with
  | nil => rfl
  | cons part parts ih =>
    rw [List.map_cons, slashed, slashed, Glob.escape_append, Glob.escape_append, Glob.escape_slash,
      ih]

theorem slashed_append (parts others : List String) :
    slashed (parts ++ others) = slashed parts ++ slashed others := by
  induction parts with
  | nil =>
    rw [List.nil_append, slashed, String.empty_append]
  | cons part parts ih =>
    rw [List.cons_append, slashed, slashed, ih]
    simp only [String.append_assoc]

/-- A glob below a directory is written as the escaped directory and the pattern behind it. -/
theorem Bare.globText_eq (bare : Bare base) (relative : isAbsolute ⟨pattern⟩ = false) :
    globText base pattern = Glob.escape (before base) ++ pattern := by
  rw [bare.before_eq]
  rcases globText_cases bare.plain relative with ⟨ended, eq⟩ | ⟨apart, eq⟩
  · rw [eq, if_pos ended]
  · rw [eq, if_neg apart, Glob.escape_append, Glob.escape_slash]

theorem Bare.read_globText_iff (bare : Bare base) (relative : isAbsolute ⟨pattern⟩ = false) :
    (∃ glob, Glob.read (globText base pattern) = .ok glob) ↔
      ∃ tokens, Glob.readFrom 0 (some '/') [] pattern.toList = .ok tokens := by
  have ended : (before base).toList.getLast? = some '/' := by
    obtain ⟨front, ended⟩ := bare.exists_before
    rw [ended, String.toList_append]
    exact List.getLast?_concat
  obtain ⟨position, previous, eq, slash⟩ :=
    Glob.readFrom_escape (before base).toList pattern.toList 0 none []
  rw [slash ended] at eq
  have chars : (globText base pattern).toList =
      (before base).toList.flatMap Glob.escapeChar ++ pattern.toList := by
    rw [bare.globText_eq relative, String.toList_append, Glob.toList_escape]
  constructor
  · rintro ⟨glob, h⟩
    have tokens := Glob.tokens_of_read h
    rw [chars, eq] at tokens
    exact Glob.exists_readFrom tokens 0 []
  · rintro ⟨tokens, h⟩
    obtain ⟨found, h'⟩ := Glob.exists_readFrom h position _
    rw [← eq, ← chars] at h'
    exact ⟨⟨found⟩, by rw [Glob.read, h']; rfl⟩

theorem Bare.getLast?_globText (bare : Bare base) (relative : isAbsolute ⟨pattern⟩ = false) :
    (globText base pattern).toList.getLast? = some '/' ↔ Glob.ForDirectories pattern := by
  rw [bare.globText_eq relative, String.toList_append, Glob.toList_escape]
  by_cases blank : pattern = ""
  · obtain ⟨front, ended⟩ := bare.exists_before
    rw [blank, ended]
    simp [Glob.escapeChar_slash, Glob.ForDirectories]
  · rw [List.getLast?_append_of_ne_nil _ (by simpa using blank)]
    exact (or_iff_right blank).symm

theorem mapM_read_slashed_eq_ok {text : List Char} (slash : ∀ part ∈ parts, '/' ∉ part.toList) :
    (splitEnded '/' ((slashed (parts.map Glob.escape)).toList ++ text)).mapM
        (fun part => Glob.read (String.ofList part)) = .ok globs ↔
      ∃ behind, (splitEnded '/' text).mapM (fun part => Glob.read (String.ofList part)) =
        .ok behind ∧ globs = parts.map Glob.literally ++ behind := by
  have slash' : ∀ part ∈ parts.map Glob.escape, '/' ∉ part.toList := by
    intro part mem
    obtain ⟨written, inside, rfl⟩ := List.mem_map.1 mem
    exact Glob.slash_not_mem_escape (slash written inside)
  have each : (fun part => Glob.read (String.ofList part)) ∘ String.toList ∘ Glob.escape =
      fun part => pure (Glob.literally part) := by
    funext part
    rw [Function.comp, Function.comp, String.ofList_toList, Glob.read_escape]
    rfl
  rw [splitEnded_slashed slash', List.mapM_append, List.map_map, List.mapM_map, each,
    List.mapM_pure]
  simp only [bind, Except.bind, pure, Except.pure]
  cases (splitEnded '/' text).mapM fun part => Glob.read (String.ofList part) with
  | error cause => simp
  | ok behind => simp [eq_comm]

section

variable (written : Written base start first directory later) (bare : Bare base)

include written bare

/-- The glob begins at the root or in the working directory, and behind that it is written as the
escaped parts of the directory and the pattern. -/
theorem Written.starts (relative : isAbsolute ⟨pattern⟩ = false) :
    let rest := (slashed ((first ++ later).map Glob.escape)).toList ++ pattern.toList
    start = ⟨"/"⟩ ∧ (globText base pattern).toList = '/' :: rest ∨
      start = ⟨"."⟩ ∧ (globText base pattern).toList = rest ∧ rest.head? ≠ some '/' := by
  have root : Glob.escape (before start) = before start := by
    cases written.begins <;> decide
  have text : globText base pattern =
      before start ++ (slashed ((first ++ later).map Glob.escape) ++ pattern) := by
    rw [bare.globText_eq relative, written.text, written.begins.text, String.append_assoc,
      ← slashed_append, Glob.escape_append, root, escape_slashed, String.append_assoc]
  rw [text]
  cases written.begins with
  | root =>
    have slash : before ⟨"/"⟩ = "/" := by decide
    refine .inl ⟨rfl, ?_⟩
    rw [slash, String.toList_append, String.toList_append]
    rfl
  | @name name isName =>
    have here : before ⟨"."⟩ = "" := by decide
    refine .inr ⟨rfl, ?_, ?_⟩
    · rw [here, String.empty_append, String.toList_append]
    · have filled : (Glob.escape name).toList ≠ [] := by
        rw [Glob.toList_escape]
        exact fun none => isName.2.1 (Glob.flatMap_escapeChar_eq_nil none)
      rw [List.cons_append, List.map_cons, toList_slashed_cons, List.append_assoc,
        List.head?_append_of_ne_nil _ filled]
      exact fun head => Glob.slash_not_mem_escape isName.1 (List.mem_of_head? head)

theorem Written.exists_globPaths_iff (relative : isAbsolute ⟨pattern⟩ = false) :
    (∃ places, files.globPaths (globText base pattern) = .ok places) ↔
      ∃ globs, Glob.ReadAs pattern globs := by
  have starts := written.starts bare relative
  constructor
  · rintro ⟨places, h⟩
    obtain ⟨read, globs, reads, -⟩ := (globPaths_ok_iff _ starts).1 h
    obtain ⟨behind, parts, -⟩ := (mapM_read_slashed_eq_ok written.slash_parts).1 reads
    exact ⟨behind, (bare.read_globText_iff relative).1 read, parts⟩
  · rintro ⟨globs, whole, parts⟩
    exact ⟨_, (globPaths_ok_iff _ starts).2 ⟨(bare.read_globText_iff relative).2 whole, _,
      (mapM_read_slashed_eq_ok written.slash_parts).2 ⟨globs, parts, rfl⟩, rfl⟩⟩

/-- The glob leads to a file as the globs of the pattern do from where the parts of the directory
lead, if the pattern does not ask for a directory. -/
theorem Written.exists_place_iff (there : files.isDirectory base = true)
    (relative : isAbsolute ⟨pattern⟩ = false) (isFile : files.isFile path = true) :
    (∃ places, files.globPaths (globText base pattern) = .ok places ∧
        ∃ place ∈ places, path = place.normalize) ↔
      ¬Glob.ForDirectories pattern ∧ ∃ globs, Glob.ReadAs pattern globs ∧
        ∃ place ∈ files.follow globs (later.foldl child directory), path = place.normalize := by
  have starts := written.starts bare relative
  have last := bare.getLast?_globText relative
  have filled : ¬Glob.ForDirectories pattern →
      ¬((slashed ((first ++ later).map Glob.escape)).toList ++ pattern.toList).isEmpty = true := by
    intro ended none
    rw [List.isEmpty_iff, List.append_eq_nil_iff] at none
    exact ended (.inl (String.toList_inj.1 none.2))
  constructor
  · rintro ⟨places, h, place, mem, rfl⟩
    obtain ⟨read, globs, reads, rfl⟩ := (globPaths_ok_iff _ starts).1 h
    obtain ⟨behind, parts, rfl⟩ := (mapM_read_slashed_eq_ok written.slash_parts).1 reads
    by_cases ended : Glob.ForDirectories pattern
    · -- A directory is not a file under its normal form.
      rw [if_pos (last.2 ended)] at mem
      obtain ⟨above, entries, held⟩ := isDirectory_eq_true (List.mem_filter.1 mem).2
      obtain ⟨place', content, found⟩ := isFile_eq_true isFile
      cases lookup_eq_of_normalize place.normalize_normalize found held
    · rw [if_neg (mt last.1 ended), if_neg (filled ended)] at mem
      exact ⟨ended, behind, ⟨(bare.read_globText_iff relative).1 read, parts⟩, place,
        (written.mem_follow bare there).1 mem, rfl⟩
  · rintro ⟨ended, globs, ⟨whole, parts⟩, place, mem, rfl⟩
    refine ⟨_, (globPaths_ok_iff _ starts).2 ⟨(bare.read_globText_iff relative).2 whole, _,
      (mapM_read_slashed_eq_ok written.slash_parts).2 ⟨globs, parts, rfl⟩, rfl⟩, place, ?_, rfl⟩
    dsimp only
    rw [if_neg (mt last.1 ended), if_neg (filled ended)]
    exact (written.mem_follow bare there).2 mem

end

end FileSystem

end BuildTargets
