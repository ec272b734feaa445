import BuildTargets.Proofs.Pattern.Run

/-!
# Searching line by line

A pattern that begins at starts of lines matches nowhere else. So a search for it goes from line to
line: `searchLines` asks at the start of each line only, and finds what the search character by
character finds.
-/

namespace BuildTargets.Grammar

open Text Pattern

variable {body : Pattern} {limit : Nat} {above below : List (List Char)}

/-- The place where a line starts. -/
def lineAt (above : List (List Char)) (line : List Char) (below : List (List Char)) : Cursor :=
  .between (behindLine above) (line ++ aheadLine below)

/-- The first match at the start of some lines or later. -/
def searchLines (pattern : Pattern) (limit : Nat) (above : List (List Char)) :
    List (List Char) → Option Found
  | [] => none
  | line :: below => pattern.findFrom? limit (lineAt above line below) (line ++ aheadLine below)

theorem matchAt?_lineStart (line : List Char) :
    matchAt? (.seq (.assert .lineStart) body) limit (lineAt above line below) =
      matchAt? body limit (lineAt above line below) := by
  have starts : Boundary.lineStart.holds (lineAt above line below) = true := by
    cases above <;> rfl
  rw [matchAt?, run_seq, run_assert, if_pos starts, matchAt?]

theorem matchAt?_inLine {w : List Char} (inside : w ≠ []) (feed : '\n' ∉ w)
    (above : List (List Char)) (ahead : List Char) :
    matchAt? (.seq (.assert .lineStart) body) limit
      (.between (w.reverse ++ behindLine above) ahead) = none := by
  have head : (w.reverse ++ behindLine above).head? = some (w.getLast inside) := by
    rw [List.head?_append, List.head?_reverse, List.getLast?_eq_some_getLast inside, Option.some_or]
  have last : w.getLast inside ≠ '\n' := fun eq => feed (eq ▸ List.getLast_mem inside)
  have mid : Boundary.lineStart.holds (.between (w.reverse ++ behindLine above) ahead) = false := by
    simp [Boundary.holds, head, last]
  rw [matchAt?, run_seq, run_assert, mid]
  rfl

/-- On a line, the search goes on from the start of the line below. -/
theorem findFrom?_line {w rest : List Char} (feed : '\n' ∉ w ++ rest)
    (here : matchAt? (.seq (.assert .lineStart) body) limit
      (.between (w.reverse ++ behindLine above) (rest ++ aheadLine below)) = none) :
    findFrom? (.seq (.assert .lineStart) body) limit
        (.between (w.reverse ++ behindLine above) (rest ++ aheadLine below))
        (rest ++ aheadLine below) =
      searchLines (.seq (.assert .lineStart) body) limit ((w ++ rest) :: above) below := by
  induction rest generalizing w with
  | nil =>
    cases below with
    | nil => exact here
    | cons next below =>
      rw [List.nil_append, aheadLine_cons] at here ⊢
      rw [findFrom?, here, orElse_none, Cursor.step_between, List.append_nil]
      rfl
  | cons c rest ih =>
    rw [List.append_cons] at feed
    have begun : '\n' ∉ w ++ [c] := fun h => feed (List.mem_append_left rest h)
    have later := ih feed (matchAt?_inLine (by simp) begun above _)
    rw [List.cons_append] at here ⊢
    rw [findFrom?, here, orElse_none, Cursor.step_between]
    simpa using later

/-! ## How far a search has got -/

/-- From this place on these lines are left to search: the first match is the first one at their
starts. -/
structure Faces (here : Cursor) (pattern : Pattern) (above todo : List (List Char)) : Prop where
  find_eq : pattern.find? here = searchLines pattern (here.ahead.length + 1) above todo
  short : ∀ line below, todo = line :: below →
    (line ++ aheadLine below).length ≤ here.ahead.length

theorem faces_start (pattern : Pattern) (text : List Char) :
    Faces (Cursor.start text) pattern [] (split '\n' text) := by
  obtain ⟨line, below, lines⟩ := List.exists_cons_of_ne_nil (split_ne_nil '\n' text)
  have whole : text = line ++ aheadLine below := by
    rw [← joinWith_lines, ← lines, joinWith_split]
  rw [lines, Cursor.start_eq_between, whole]
  refine ⟨rfl, ?_⟩
  rintro _ _ ⟨⟩
  exact Nat.le_refl _

theorem Faces.skip {here : Cursor} {line : List Char}
    (h : Faces here (.seq (.assert .lineStart) body) above (line :: below)) (feed : '\n' ∉ line)
    (misses : ∀ {limit}, (line ++ aheadLine below).length ≤ limit →
      matchAt? (.seq (.assert .lineStart) body) limit (lineAt above line below) = none) :
    Faces here (.seq (.assert .lineStart) body) (line :: above) below := by
  have short := h.short line below rfl
  refine ⟨?_, ?_⟩
  · rw [h.find_eq]
    exact findFrom?_line (w := []) feed (misses (Nat.le_succ_of_le short))
  · rintro next later rfl
    rw [aheadLine_cons, List.length_append, List.length_cons] at short
    omega

theorem faces_inLine {w rest : List Char} (inside : w ≠ []) (feed : '\n' ∉ w ++ rest)
    (above below : List (List Char)) :
    Faces (.between (w.reverse ++ behindLine above) (rest ++ aheadLine below))
      (.seq (.assert .lineStart) body) ((w ++ rest) :: above) below := by
  have begun : '\n' ∉ w := fun h => feed (List.mem_append_left rest h)
  refine ⟨findFrom?_line feed (matchAt?_inLine inside begun above _), ?_⟩
  rintro next later rfl
  exact ((List.suffix_cons '\n' _).trans (List.suffix_append rest _)).length_le

end BuildTargets.Grammar
