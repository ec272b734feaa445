import BuildTargets.Proofs.Grammar.Includes
import BuildTargets.Proofs.Grammar.LineRule

/-!
# Lines of a document

A text is cut into lines, and each line starts at the width of the lines above it with their line
feeds. There the document has the line that was cut, under the number of lines above it; so lines
are numbered in the order of the bytes that they start at.
-/

namespace BuildTargets

open Text

/-! ## Lines and their offsets -/

theorem lineOffset_concat (above : List (List Char)) (line : List Char) :
    lineOffset (above ++ [line]) = width line + 1 + lineOffset above := by
  induction above with
  | nil => rfl
  | cons first above ih =>
    rw [List.cons_append, lineOffset_cons, ih, lineOffset_cons]
    omega

theorem linesFrom_append (number offset : Nat) (front later : List (List Char)) :
    linesFrom number offset (front ++ later) = linesFrom number offset front ++
      linesFrom (number + front.length) (offset + lineOffset front.reverse) later := by
  induction front generalizing number offset with
  | nil => rfl
  | cons line front ih =>
    rw [List.cons_append, linesFrom, linesFrom, ih, List.reverse_cons, lineOffset_concat,
      List.length_cons, List.cons_append]
    congr 3 <;> omega

theorem length_linesFrom (number offset : Nat) (raws : List (List Char)) :
    (linesFrom number offset raws).length = raws.length := by
  induction raws generalizing number offset with
  | nil => rfl
  | cons raw raws ih => rw [linesFrom, List.length_cons, ih, List.length_cons]

/-- A text is what lies before one of its lines, that line, and what follows it. -/
theorem joinWith_above (above : List (List Char)) (line : List Char) (below : List (List Char)) :
    joinWith '\n' (above.reverse ++ line :: below) =
      (behindLine above).reverse ++ (line ++ aheadLine below) := by
  induction above generalizing line below with
  | nil => exact joinWith_lines line below
  | cons last above ih =>
    rw [List.reverse_cons, List.append_assoc, List.singleton_append, ih]
    simp

theorem count_behindLine {above : List (List Char)} (feeds : ∀ line ∈ above, '\n' ∉ line) :
    (behindLine above).count '\n' = above.length := by
  induction above with
  | nil => rfl
  | cons line above ih =>
    have plain : line.reverse.count '\n' = 0 :=
      List.count_eq_zero.2 fun mem => feeds line List.mem_cons_self (List.mem_reverse.1 mem)
    rw [behindLine_cons, List.count_cons_self, List.count_append, plain,
      ih fun l mem => feeds l (List.mem_cons_of_mem line mem), List.length_cons]
    omega

theorem lineOffset_append (front above : List (List Char)) :
    lineOffset above ≤ lineOffset (front ++ above) := by
  induction front with
  | nil => exact Nat.le_refl _
  | cons line front ih =>
    rw [List.cons_append, lineOffset_cons]
    omega

namespace Document

/-- The line of a document below some lines. -/
def lineBelow (above : List (List Char)) (line : List Char) : Line :=
  ⟨above.length, String.ofList (dropReturn line), lineOffset above,
    lineOffset above + width (dropReturn line)⟩

variable {document : Document} {above below above' below' : List (List Char)}
  {line line' : List Char}

theorem line?_of_lines (lines : split '\n' document.chars = above.reverse ++ line :: below) :
    document.line? above.length = some (lineBelow above line) := by
  rw [line?, Document.lines, linesOf, lines, linesFrom_append, List.reverse_reverse,
    List.length_reverse, List.getElem?_append_right (by simp [length_linesFrom]),
    length_linesFrom, List.length_reverse, Nat.sub_self, Nat.zero_add, Nat.zero_add]
  rfl

theorem lineNumber_lineOffset
    (lines : split '\n' document.chars = above.reverse ++ line :: below) :
    document.lineNumber (lineOffset above) = above.length := by
  have feeds : ∀ l ∈ above, '\n' ∉ l := fun l mem =>
    not_mem_of_mem_split (lines ▸ List.mem_append_left _ (List.mem_reverse.2 mem))
  have text := joinWith_split '\n' document.chars
  rw [lines, joinWith_above] at text
  have passed := lineFeedsBefore_append 0 (behindLine above).reverse (line ++ aheadLine below)
  rwa [text, width_reverse, width_behindLine, Nat.zero_add, List.count_reverse,
    count_behindLine feeds] at passed

theorem lineAt_lineOffset (lines : split '\n' document.chars = above.reverse ++ line :: below) :
    document.lineAt (lineOffset above) = lineBelow above line := by
  rw [lineAt, lineNumber_lineOffset lines, line?_of_lines lines]
  rfl

theorem start_lineAt (lines : split '\n' document.chars = above.reverse ++ line :: below) :
    (document.lineAt (lineOffset above)).start = lineOffset above := by
  rw [lineAt_lineOffset lines, lineBelow]

theorem length_lt_of_lineOffset_lt
    (lines : split '\n' document.chars = above.reverse ++ line :: below)
    (lines' : split '\n' document.chars = above'.reverse ++ line' :: below')
    (further : lineOffset above < lineOffset above') : above.length < above'.length := by
  refine Nat.lt_of_not_le fun more => ?_
  have front : above.reverse <+: split '\n' document.chars := lines ▸ List.prefix_append _ _
  have front' : above'.reverse <+: split '\n' document.chars := lines' ▸ List.prefix_append _ _
  have shorter : above'.reverse <+: above.reverse :=
    List.prefix_of_prefix_length_le front' front (by simpa using more)
  obtain ⟨extra, rfl⟩ := List.reverse_prefix.1 shorter
  exact Nat.not_lt.2 (lineOffset_append extra above') further

def StartsLine (document : Document) (offset : Nat) : Prop :=
  ∃ above line below,
    split '\n' document.chars = above.reverse ++ line :: below ∧ offset = lineOffset above

theorem StartsLine.number_lt {offset offset' : Nat} (starts : document.StartsLine offset)
    (starts' : document.StartsLine offset') (further : offset < offset') :
    (document.lineAt offset).number < (document.lineAt offset').number := by
  obtain ⟨above, line, below, lines, rfl⟩ := starts
  obtain ⟨above', line', below', lines', rfl⟩ := starts'
  rw [lineAt_lineOffset lines, lineAt_lineOffset lines']
  exact length_lt_of_lineOffset_lt lines lines' further

end Document

end BuildTargets
