import BuildTargets.TargetFile
import BuildTargets.Proofs.Pattern.Advance

/-!
# Lines of include directives

Whatever a directive is called, it begins a line and takes up more than nothing of it. So the
include directives of a text stand on different lines, in order.
-/

namespace BuildTargets

open Text Pattern

namespace Text

theorem lineFeedsBefore_append (start : Nat) (w rest : List Char) :
    lineFeedsBefore (start + width w) start (w ++ rest) = w.count '\n' := by
  induction w generalizing start with
  | nil => cases rest <;> simp [lineFeedsBefore]
  | cons c w ih =>
    have later := ih (start + c.utf8Size)
    rw [Nat.add_assoc] at later
    have := c.utf8Size_pos
    rw [List.cons_append, lineFeedsBefore, if_neg (by rw [width_cons]; omega), width_cons, later,
      List.count_cons, Nat.add_comm]
    simp

namespace Cursor

theorem lineFeedsBefore_offset (here : Cursor) :
    lineFeedsBefore here.offset 0 here.text = here.behind.count '\n' := by
  have passed := lineFeedsBefore_append 0 here.behind.reverse here.ahead
  rwa [width_reverse, ← here.offset_eq, Nat.zero_add, List.count_reverse] at passed

/-- A start of a line behind some characters has more line feeds behind it. -/
theorem Passes.count_lt {here there : Cursor} {c : Char} {w : List Char}
    (passes : here.Passes (c :: w) there) (starts : Boundary.lineStart.holds there = true) :
    here.behind.count '\n' < there.behind.count '\n' := by
  have feed : (c :: w).getLast? = some '\n' := by
    have head : there.behind.head? = (c :: w).getLast? := by
      rw [passes.behind, List.head?_append, List.head?_reverse,
        List.getLast?_eq_some_getLast (List.cons_ne_nil c w), Option.some_or]
    simpa [Boundary.holds, head] using starts
  have mem : '\n' ∈ (c :: w).reverse := List.mem_reverse.2 (List.mem_of_getLast? feed)
  rw [passes.behind, List.count_append]
  have := List.count_pos_iff.2 mem
  omega

end Cursor

end Text

namespace Grammar

theorem matchAt?_includePattern {grammar : Grammar} {limit : Nat} {here : Cursor} {found : Found}
    (h : grammar.includePattern.matchAt? limit here = some found) :
    Boundary.lineStart.holds here = true ∧ found.whole.start = here ∧
      ∃ c w, here.Passes (c :: w) found.whole.stop := by
  have h : run limit (.assert .lineStart) ⟨here, []⟩ (fun now =>
      run limit (.literal grammar.includeDirective.toList) now fun now =>
        run limit (.someOf gap) now fun now =>
          run limit (.group argumentGroup (.manyOf inLine)) now fun reached =>
            some ⟨⟨here, reached.here⟩, reached.groups⟩) = some found := h
  rw [run_assert] at h
  split at h
  · next starts =>
    obtain ⟨v, mid, directive, h⟩ := forward_run _ h
    obtain ⟨c, w, next, blank, h⟩ := hands_someOf h
    obtain ⟨x, reached, argument, h⟩ := forward_run _ h
    cases h
    obtain ⟨d, y, passed⟩ : ∃ d y, d :: y = v ++ (c :: w ++ x) := by cases v <;> exact ⟨_, _, rfl⟩
    exact ⟨starts, rfl, d, y, passed ▸ (directive.trans (blank.trans argument)).passes⟩
  · cases h

/-- A start of a line that is reached over some characters and has the given offset. -/
def StartsAt (here : Cursor) (offset : Nat) : Prop :=
  ∃ w there, here.Passes w there ∧ Boundary.lineStart.holds there = true ∧ there.offset = offset

/-- The include directives at a place and later stand on lines that start there or later, one below
the other. -/
theorem includesFrom_lines (grammar : Grammar) (place : Cursor) :
    (∀ entry ∈ includesFrom grammar.includePattern place, StartsAt place entry.1) ∧
      (includesFrom grammar.includePattern place).Pairwise fun a b =>
        lineFeedsBefore a.1 0 place.text < lineFeedsBefore b.1 0 place.text := by
  rw [includesFrom]
  split
  · exact ⟨List.forall_mem_nil _, .nil⟩
  · next found search =>
    obtain ⟨limit, v, start, before, matched⟩ := find?_eq_some search
    obtain ⟨starts, begins, c, w, passes⟩ := matchAt?_includePattern matched
    -- What comes behind the match, whether the search goes on there or not.
    generalize below : (if found.whole.stop.ahead.length < place.ahead.length then
      includesFrom grammar.includePattern found.whole.stop else []) = later
    have same : found.whole.stop.text = place.text := passes.text_eq.trans before.text_eq
    obtain ⟨reached, ascending⟩ : (∀ entry ∈ later, StartsAt found.whole.stop entry.1) ∧
        later.Pairwise fun a b =>
          lineFeedsBefore a.1 0 place.text < lineFeedsBefore b.1 0 place.text := by
      split at below
      · rw [← below, ← same]
        exact includesFrom_lines grammar found.whole.stop
      · rw [← below]
        exact ⟨List.forall_mem_nil _, .nil⟩
    have onward : ∀ entry ∈ later, StartsAt place entry.1 ∧
        lineFeedsBefore start.offset 0 place.text < lineFeedsBefore entry.1 0 place.text := by
      intro entry mem
      obtain ⟨x, there, behind, starts', offset⟩ := reached entry mem
      have passed := passes.trans behind
      refine ⟨⟨_, there, before.trans passed, starts', offset⟩, ?_⟩
      rw [← offset, ← before.text_eq, Cursor.lineFeedsBefore_offset, ← passed.text_eq,
        Cursor.lineFeedsBefore_offset]
      exact passed.count_lt starts'
    rw [begins]
    have either : ∀ argument : List Char,
        let entries := if argument.isEmpty then later
          else (start.offset, String.ofList argument) :: later
        (∀ entry ∈ entries, StartsAt place entry.1) ∧ entries.Pairwise fun a b =>
          lineFeedsBefore a.1 0 place.text < lineFeedsBefore b.1 0 place.text := by
      intro argument
      dsimp only
      split
      · exact ⟨fun entry mem => (onward entry mem).1, ascending⟩
      · exact ⟨List.forall_mem_cons.2 ⟨⟨v, start, before, starts, rfl⟩,
          fun entry mem => (onward entry mem).1⟩,
          List.pairwise_cons.2 ⟨fun entry mem => (onward entry mem).2, ascending⟩⟩
    exact either _
termination_by place.ahead.length
decreasing_by assumption

end Grammar

/-- The include directives of a file stand on different lines, one below the other. -/
theorem TargetFile.edges_lines (file : TargetFile) :
    file.edges.Pairwise fun a b =>
      file.document.lineNumber a.offset < file.document.lineNumber b.offset := by
  rw [edges, List.pairwise_map]
  exact (file.grammar.includesFrom_lines (Cursor.start file.document.text.toList)).2

/-! ## Lines of documents -/

theorem number_linesFrom {number offset : Nat} {raws : List (List Char)} {index : Nat} {line : Line}
    (h : (linesFrom number offset raws)[index]? = some line) : line.number = number + index := by
  induction raws generalizing number offset index with
  | nil => cases h
  | cons raw raws ih =>
    cases index with
    | zero =>
      cases h
      rfl
    | succ index =>
      have later := ih h
      omega

/-- The line that a byte lies on has the number of the byte's line. -/
@[simp] theorem Document.number_lineAt (document : Document) (offset : Nat) :
    (document.lineAt offset).number = document.lineNumber offset := by
  rw [lineAt]
  cases found : document.line? (document.lineNumber offset) with
  | none => rfl
  | some line => exact (number_linesFrom found).trans (Nat.zero_add _)

end BuildTargets
