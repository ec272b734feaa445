import BuildTargets.Proofs.FileSystem.Globs
import Mathlib.Data.String.Basic

/-!
# Respelled paths

Below a directory that is written in some way, doubled separators and inner `.` included, paths come
in several spellings: with the same components, and with characters left out. What such a spelling
leads to is what the path leads to. The normal form of a path without `.` and `..` is one of its
spellings.
-/

namespace BuildTargets

namespace Text

/-! ## Parts with separators behind them -/

def slashed : List String → String
  | [] => ""
  | part :: later => part ++ "/" ++ slashed later

theorem toList_slashed_cons (part : String) (later : List String) :
    (slashed (part :: later)).toList = part.toList ++ '/' :: (slashed later).toList := by
  rw [slashed, String.toList_append, String.toList_append, List.append_assoc]
  rfl

/-- A text that ends in a separator is made up of parts with separators behind them. -/
theorem exists_slashed (text : String) : ∃ parts, parts ≠ [] ∧ (∀ part ∈ parts, '/' ∉ part.toList) ∧
    text ++ "/" = slashed parts := by
  have joined : ∀ parts : List (List Char), parts ≠ [] →
      (slashed (parts.map String.ofList)).toList = joinWith '/' parts ++ ['/'] := by
    intro parts filled
    induction parts with
    | nil => exact absurd rfl filled
    | cons part later ih =>
      rw [List.map_cons, toList_slashed_cons, String.toList_ofList]
      cases later with
      | nil => rfl
      | cons next later =>
        rw [ih (List.cons_ne_nil _ _), ← List.cons_append, ← List.append_assoc]
        rfl
  have filled := split_ne_nil '/' text.toList
  refine ⟨(split '/' text.toList).map String.ofList, by simpa using filled, ?_, ?_⟩
  · intro part mem
    obtain ⟨chars, inside, rfl⟩ := List.mem_map.1 mem
    rw [String.toList_ofList]
    exact not_mem_of_mem_split inside
  · rw [← String.toList_inj, joined _ filled, joinWith_split, String.toList_append]
    rfl

theorem split_slashed {parts : List String} (slash : ∀ part ∈ parts, '/' ∉ part.toList)
    (text : List Char) :
    split '/' ((slashed parts).toList ++ text) = parts.map String.toList ++ split '/' text := by
  induction parts with
  | nil => rfl
  | cons part parts ih =>
    rw [List.forall_mem_cons] at slash
    rw [toList_slashed_cons, List.append_assoc, List.cons_append, split_append,
      split_of_not_mem slash.1, ih slash.2]
    rfl

theorem splitEnded_slashed {parts : List String} (slash : ∀ part ∈ parts, '/' ∉ part.toList)
    (text : List Char) : splitEnded '/' ((slashed parts).toList ++ text) =
      parts.map String.toList ++ splitEnded '/' text := by
  unfold splitEnded
  rw [split_slashed slash, List.reverse_append]
  obtain ⟨last, front, reversed⟩ := List.exists_cons_of_ne_nil
    (List.reverse_ne_nil_iff.2 (split_ne_nil '/' text))
  rw [reversed, List.cons_append]
  cases last <;> simp

theorem slashed_sublist {parts others : List String} (h : parts.Sublist others) :
    (slashed parts).toList.Sublist (slashed others).toList := by
  induction h with
  | slnil => exact List.Sublist.refl _
  | cons part _ ih =>
    rw [toList_slashed_cons]
    exact (ih.trans (List.sublist_cons_self _ _)).trans (List.sublist_append_right _ _)
  | cons_cons part _ ih =>
    rw [toList_slashed_cons, toList_slashed_cons]
    exact (ih.cons_cons _).append_left _

end Text

namespace FileSystem

open BuildTargets.Path Text

variable {files : FileSystem} {directory path other base : Path} {place : List String}
  {part name : String} {parts names : List String}

/-! ## Bare paths -/

/-- A path that is not blank and does not begin with `.`, so that paths below it begin with it. -/
structure Bare (path : Path) : Prop where
  filled : path.text ≠ ""
  here : .here ∉ path.components

namespace Bare

theorem same_here (bare : Bare directory) : directory.same ⟨"."⟩ = false := by
  refine Bool.eq_false_iff.2 fun same => bare.here ?_
  rw [same_iff.1 same]
  exact List.mem_singleton_self _

theorem plain (bare : Bare directory) : Plain directory where
  filled := bare.filled
  here same := by
    rw [bare.same_here] at same
    cases same

theorem before_eq (bare : Bare directory) : before directory =
    if directory.text.toList.getLast? = some '/' then directory.text
    else directory.text ++ "/" := by
  rw [before, bare.same_here, if_neg Bool.false_ne_true]

theorem exists_before (bare : Bare directory) : ∃ front, before directory = front ++ "/" := by
  rw [bare.before_eq]
  split
  · next ended =>
    obtain ⟨front, text⟩ := List.getLast?_eq_some_iff.1 ended
    refine ⟨String.ofList front, ?_⟩
    rw [← String.toList_inj, text, String.toList_append, String.toList_ofList]
    rfl
  · exact ⟨_, rfl⟩

theorem text_sublist_before (bare : Bare directory) :
    directory.text.toList.Sublist (before directory).toList := by
  rw [bare.before_eq]
  split
  · exact List.Sublist.refl _
  · rw [String.toList_append]
    exact List.sublist_append_left _ _

theorem child_eq (bare : Bare directory) (slash : '/' ∉ part.toList) :
    child directory part = ⟨before directory ++ part⟩ := by
  have relative : isAbsolute ⟨part⟩ = false := by
    rw [isAbsolute, beq_eq_false_iff_ne]
    exact fun head => slash (List.mem_of_head? head)
  rw [child, bare.same_here, if_neg Bool.false_ne_true, join, relative, if_neg Bool.false_ne_true,
    bare.before_eq]
  by_cases ended : directory.text.toList.getLast? = some '/'
  · rw [if_pos ended, if_pos (by simp [ended])]
  · rw [if_neg ended, if_neg (by simp [ended, bare.filled])]

end Bare

theorem components_slash (front : String) (slash : '/' ∉ part.toList) :
    components ⟨front ++ "/" ++ part⟩ =
      components ⟨front ++ "/"⟩ ++ (Component.ofPart? part.toList).toList := by
  have chars : (front ++ "/" ++ part).toList = front.toList ++ '/' :: part.toList := by
    rw [String.toList_append, String.toList_append, List.append_assoc]
    rfl
  have ended : (front ++ "/").toList = front.toList ++ '/' :: [] := by
    rw [String.toList_append]
    rfl
  have begins : lead (front.toList ++ '/' :: part.toList) = lead (front.toList ++ '/' :: []) := by
    by_cases blank : front.toList = []
    · rw [blank]
      rfl
    · rw [lead_append blank, lead_append blank]
  rw [components_eq, components_eq, chars, ended, begins, steps_append, steps_append, steps_nil,
    List.append_nil, steps_of_not_mem slash, List.append_assoc]

theorem components_ended {text : String} (filled : text ≠ "") :
    components ⟨text ++ "/"⟩ = components ⟨text⟩ := by
  have chars : (text ++ "/").toList = text.toList ++ '/' :: [] := by
    rw [String.toList_append]
    rfl
  rw [components_eq, components_eq, chars, lead_append (by simpa using filled), steps_append,
    steps_nil, List.append_nil]

namespace Bare

theorem components_before (bare : Bare directory) :
    components ⟨before directory⟩ = directory.components := by
  rw [bare.before_eq]
  split
  · rfl
  · exact components_ended bare.filled

theorem components_before_append (bare : Bare directory) (slash : '/' ∉ part.toList) :
    components ⟨before directory ++ part⟩ =
      directory.components ++ (Component.ofPart? part.toList).toList := by
  obtain ⟨front, ended⟩ := bare.exists_before
  rw [← bare.components_before, ended]
  exact components_slash front slash

theorem components_child (bare : Bare directory) (slash : '/' ∉ part.toList) :
    (child directory part).components =
      directory.components ++ (Component.ofPart? part.toList).toList := by
  rw [bare.child_eq slash]
  exact bare.components_before_append slash

theorem child (bare : Bare directory) (slash : '/' ∉ part.toList) :
    Bare (FileSystem.child directory part) where
  filled := by
    obtain ⟨front, ended⟩ := bare.exists_before
    rw [bare.child_eq slash, ended]
    simp
  here := by
    rw [bare.components_child slash, List.mem_append, not_or]
    refine ⟨bare.here, fun mem => ?_⟩
    have isStep : Component.IsStep .here := ⟨_, slash, Option.mem_toList.1 mem⟩
    rcases isStep.cases with stands | ⟨name, stands, -⟩ <;> cases stands

theorem before_child_blank (bare : Bare directory) :
    before (FileSystem.child directory "") = before directory := by
  obtain ⟨front, ended⟩ := bare.exists_before
  have slash : '/' ∉ "".toList := by decide
  rw [(bare.child slash).before_eq, bare.child_eq slash, if_pos, String.append_empty]
  rw [ended, String.append_empty, String.toList_append]
  exact List.getLast?_concat

theorem before_child (bare : Bare directory) (slash : '/' ∉ part.toList) (filled : part ≠ "") :
    before (FileSystem.child directory part) = before directory ++ part ++ "/" := by
  have chars : part.toList ≠ [] := by simpa using filled
  rw [(bare.child slash).before_eq, bare.child_eq slash, if_neg]
  rw [String.toList_append, List.getLast?_append_of_ne_nil _ chars]
  exact fun last => slash (List.mem_of_getLast? last)

theorem before_child_sublist (bare : Bare directory) (slash : '/' ∉ part.toList) :
    (before (FileSystem.child directory part) ++ slashed parts).toList.Sublist
      (before directory ++ slashed (part :: parts)).toList := by
  rw [String.toList_append, String.toList_append, toList_slashed_cons]
  by_cases blank : part = ""
  · subst blank
    rw [bare.before_child_blank]
    exact (List.sublist_cons_self _ _).append_left _
  · rw [bare.before_child slash blank]
    simp

/-- Along parts their components are added, and no more is written than the parts. -/
theorem foldl_child (bare : Bare directory) (slash : ∀ part ∈ parts, '/' ∉ part.toList) :
    Bare (parts.foldl FileSystem.child directory) ∧
      (parts.foldl FileSystem.child directory).components = directory.components ++
        parts.filterMap (fun part => Component.ofPart? part.toList) ∧
      (before (parts.foldl FileSystem.child directory)).toList.Sublist
        (before directory ++ slashed parts).toList := by
  induction parts generalizing directory with
  | nil =>
    refine ⟨bare, (List.append_nil _).symm, ?_⟩
    rw [slashed, String.append_empty]
    exact List.Sublist.refl _
  | cons part parts ih =>
    rw [List.forall_mem_cons] at slash
    obtain ⟨last, components, within⟩ := ih (bare.child slash.1) slash.2
    refine ⟨last, ?_, within.trans (bare.before_child_sublist slash.1)⟩
    rw [List.foldl_cons, components, bare.components_child slash.1, List.append_assoc,
      List.filterMap_cons]
    cases Component.ofPart? part.toList <;> rfl

end Bare

/-! ## Spellings -/

/-- A path is another spelling of one: it has its components, and what stands in it before the next
name is what stands there in the other with characters left out. -/
structure Respells (path other : Path) : Prop where
  bare : Bare path
  bare' : Bare other
  components : path.components = other.components
  within : (before path).toList.Sublist (before other).toList

namespace Respells

theorem normalize_eq (h : Respells path other) : path.normalize = other.normalize :=
  normalize_congr (same_iff.2 h.components)

theorem child (h : Respells path other) (slash : '/' ∉ part.toList) (filled : part ≠ "") :
    Respells (FileSystem.child path part) (FileSystem.child other part) where
  bare := h.bare.child slash
  bare' := h.bare'.child slash
  components := by rw [h.bare.components_child slash, h.bare'.components_child slash, h.components]
  within := by
    rw [h.bare.before_child slash filled, h.bare'.before_child slash filled]
    simp only [String.toList_append, List.append_assoc]
    exact h.within.append_right _

/-- A blank part spells the same path. -/
theorem blank (h : Respells path other) : Respells (FileSystem.child path "") other where
  bare := h.bare.child (by decide)
  bare' := h.bare'
  components := by
    rw [h.bare.components_child (by decide), ← h.components]
    exact List.append_nil _
  within := by
    rw [h.bare.before_child_blank]
    exact h.within

theorem child_name (h : Respells path other) (isName : IsName name) :
    Respells (FileSystem.child path name) (FileSystem.child other name) :=
  h.child isName.1 fun blank => isName.2.1 (by simpa using blank)

theorem foldl_child (h : Respells path other) (isName : ∀ name ∈ names, IsName name) :
    Respells (names.foldl FileSystem.child path) (names.foldl FileSystem.child other) := by
  induction names generalizing path other with
  | nil => exact h
  | cons name names ih =>
    rw [List.forall_mem_cons] at isName
    exact ih (h.child_name isName.1) isName.2

end Respells

/-! ## Where spellings lead -/

/-- A path with characters left out has no fault that the path has not. -/
theorem pathFault?_of_sublist (fault : pathFault? other = none)
    (within : path.text.toList.Sublist other.text.toList) (filled : path.text ≠ "") :
    pathFault? path = none := by
  unfold pathFault? at fault ⊢
  split at fault
  · cases fault
  · next nul =>
    split at fault
    · cases fault
    · split at fault
      · cases fault
      · next short =>
        have nul' : ¬path.text.toList.contains '\x00' = true := by
          rw [List.contains_iff_mem] at nul ⊢
          exact fun mem => nul (within.subset mem)
        have short' : ¬longestPath < path.text.utf8ByteSize := by
          have size := String.utf8Len_le_of_sublist within
          rw [String.utf8Len_toList, String.utf8Len_toList] at size
          omega
        rw [if_neg nul', if_neg filled, if_neg short']

theorem asksForDirectory_child (bare : Bare directory) (isName : IsName name) :
    asksForDirectory (child directory name) = false := by
  obtain ⟨front, ended⟩ := bare.exists_before
  obtain ⟨slash, filled, dot, -⟩ := isName
  have reversed : (child directory name).text.toList.reverse =
      name.toList.reverse ++ '/' :: front.toList.reverse := by
    rw [bare.child_eq slash, ended]
    simp
  rw [asksForDirectory, reversed]
  rcases List.eq_nil_or_concat name.toList with blank | ⟨before, last, chars⟩
  · exact absurd blank filled
  · rw [chars, List.concat_eq_append, List.mem_append, not_or, List.mem_singleton] at slash
    rw [chars, List.concat_eq_append] at dot ⊢
    rw [List.reverse_append, List.reverse_singleton, List.singleton_append, List.cons_append]
    split
    · next eq => exact absurd (List.cons.inj eq).1.symm slash.2
    · next same =>
      -- A dot behind a separator would be all of the name.
      obtain ⟨rfl, behind⟩ := List.cons.inj same
      rcases List.eq_nil_or_concat before with rfl | ⟨more, c, rfl⟩
      · exact absurd rfl dot
      · rw [List.concat_eq_append, List.reverse_append, List.reverse_singleton,
          List.singleton_append, List.cons_append] at behind
        refine absurd ?_ slash.1
        rw [(List.cons.inj behind).1]
        simp
    · rfl

theorem asksForDirectory_child_blank (bare : Bare directory) :
    asksForDirectory (child directory "") = true := by
  obtain ⟨front, ended⟩ := bare.exists_before
  have reversed : (child directory "").text.toList.reverse = '/' :: front.toList.reverse := by
    rw [bare.child_eq (by decide), ended]
    simp
  rw [asksForDirectory, reversed]
  rfl

namespace Respells

theorem lookup {entry : Entry} (h : Respells path other) (fault : pathFault? path = none)
    (there : files.lookup other = .ok (place, entry))
    (asks : entry.isFile = true → asksForDirectory path = false) :
    files.lookup path = .ok (place, entry) := by
  obtain ⟨-, located, there, -⟩ := lookup_eq_ok there
  rw [← h.components] at located
  exact lookup_of_locate fault located there asks

theorem lookup_child {entry : Entry} (h : Respells path other) (isName : IsName name)
    (there : files.lookup (FileSystem.child other name) = .ok (place, entry)) :
    files.lookup (FileSystem.child path name) = .ok (place, entry) := by
  have named := h.child_name isName
  refine named.lookup (pathFault?_of_sublist (lookup_eq_ok there).1 ?_ named.bare.filled) there
    fun _ => asksForDirectory_child h.bare isName
  rw [h.bare.child_eq isName.1, h.bare'.child_eq isName.1, String.toList_append,
    String.toList_append]
  exact h.within.append_right _

/-- Where something is below a path, all its spellings lead to the directory that it is in. -/
theorem lookup_above {entry : Entry} (h : Respells path other) (isName : IsName name)
    (there : files.lookup (FileSystem.child other name) = .ok (place, entry)) :
    ∃ above entries, files.lookup other = .ok (above, .directory entries) ∧
      files.lookup path = .ok (above, .directory entries) := by
  obtain ⟨above, entries, held, -⟩ := lookup_enter h.bare'.plain isName.isStep there
  refine ⟨above, entries, held, h.lookup ?_ held nofun⟩
  refine pathFault?_of_sublist (lookup_eq_ok there).1 ?_ h.bare.filled
  rw [h.bare'.child_eq isName.1, String.toList_append]
  exact (h.bare.text_sublist_before.trans h.within).trans (List.sublist_append_left _ _)

end Respells

end FileSystem

end BuildTargets
