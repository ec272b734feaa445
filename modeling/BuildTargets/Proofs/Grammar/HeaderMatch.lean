import BuildTargets.Proofs.Grammar.CommentLine
import BuildTargets.Proofs.Grammar.LineSearch

/-!
# Matches of a header pattern

A header pattern matches at starts of lines only: there it matches a header line, or a comment
line and the header line below it. What `accept?` makes of such a match is the header that the
rule of the pattern gives the line.
-/

namespace BuildTargets.Grammar

open Text Pattern

variable {body : Pattern} {rule : HeaderRule} {limit : Nat} {above below : List (List Char)}
  {line name rest : List Char}

/-- A header pattern: at the start of a line, a comment and what reads the line of the header. -/
def lineHeader (body : Pattern) : Pattern := .seq (.assert .lineStart) (.seq leadingComment body)

/-! ## Matches at the start of a line -/

/-- Behind the comment of a match that begins at `start`: what is left of the pattern, and the
match up to where it gets. -/
def readOn (body : Pattern) (limit : Nat) (start : Cursor) (now : Progress) : Option Found :=
  run limit body now fun reached => some ⟨⟨start, reached.here⟩, reached.groups⟩

theorem matchAt?_lineAt :
    matchAt? (lineHeader body) limit (lineAt above line below) =
      let start := lineAt above line below
      orElse (run limit commentLine ⟨start, []⟩ (readOn body limit start)) fun _ =>
        readOn body limit start ⟨start, []⟩ := by
  rw [lineHeader, matchAt?_lineStart, matchAt?, run_seq, leadingComment_eq, run_optional]
  rfl

/-- A match that ends behind the colon of a header line. -/
def headerFound (start : Cursor) (groups : List (String × Span)) (above : List (List Char))
    (lead name front rest : List Char) (below : List (List Char)) : Found where
  whole :=
    ⟨start, .between (front.reverse ++ (name.reverse ++ (lead.reverse ++ behindLine above)))
      (rest ++ aheadLine below)⟩
  groups :=
    (targetGroup, .covering (lead.reverse ++ behindLine above) name
      (front ++ (rest ++ aheadLine below))) :: groups

theorem Reads.readOn_eq (h : Reads body rule) (found : rule.parts? line = some (name, rest)) :
    ∃ lead front, front ≠ [] ∧ line = lead ++ (name ++ (front ++ rest)) ∧
      ∀ {limit : Nat} {above below : List (List Char)} {start : Cursor}
        {groups : List (String × Span)}, line.length ≤ limit →
      readOn body limit start ⟨lineAt above line below, groups⟩ =
        some (headerFound start groups above lead name front rest below) := by
  obtain ⟨lead, front, fronted, split, reads⟩ := h.finds found
  refine ⟨lead, front, fronted, split, ?_⟩
  intro limit above below start groups long
  unfold readOn lineAt
  rw [reads long]
  rfl

theorem Reads.matchAt?_header (h : Reads body rule) (found : rule.parts? line = some (name, rest))
    (feed : '\n' ∉ line) (long : line.length ≤ limit) :
    ∃ lead front, front ≠ [] ∧ line = lead ++ (name ++ (front ++ rest)) ∧
      matchAt? (lineHeader body) limit (lineAt above line below) =
        some (headerFound (lineAt above line below) [] above lead name front rest below) := by
  obtain ⟨lead, front, fronted, split, reads⟩ := h.readOn_eq found
  have plain : run limit commentLine ⟨lineAt above line below, []⟩
      (readOn body limit (lineAt above line below)) = none :=
    run_commentLine_none feed long (.inr (commentText?_of_parts? found))
  refine ⟨lead, front, fronted, split, ?_⟩
  rw [matchAt?_lineAt]
  dsimp only
  rw [plain, orElse_none, reads long]

theorem Reads.matchAt?_comment (h : Reads body rule) {note text : List Char}
    (comment : commentText? note = some text) (found : rule.parts? line = some (name, rest))
    (feed : '\n' ∉ note) (long : (note ++ aheadLine (line :: below)).length ≤ limit) :
    ∃ lead front span, front ≠ [] ∧ line = lead ++ (name ++ (front ++ rest)) ∧
      span.chars = text ∧
      matchAt? (lineHeader body) limit (lineAt above note (line :: below)) =
        some (headerFound (lineAt above note (line :: below)) [(commentGroup, span)]
          (note :: above) lead name front rest below) := by
  obtain ⟨lead, front, fronted, split, reads⟩ := h.readOn_eq found
  rw [aheadLine_cons, List.length_append, List.length_cons, List.length_append] at long
  have goes : ∀ groups, toNextLine (readOn body limit (lineAt above note (line :: below)))
      (behindLine above) note (line :: below) groups =
        some (headerFound (lineAt above note (line :: below)) groups (note :: above) lead name front
          rest below) := by
    intro groups
    show readOn body limit _ ⟨lineAt (note :: above) line below, groups⟩ = _
    exact reads (by omega)
  obtain ⟨span, text_eq, taken⟩ :=
    @run_commentLine _ limit _ _ [] _ _ _ comment feed (by omega) fun groups groups' none => by
      rw [goes] at none
      cases none
  refine ⟨lead, front, span, fronted, split, text_eq, ?_⟩
  rw [goes] at taken
  have first : run limit commentLine ⟨lineAt above note (line :: below), []⟩
      (readOn body limit (lineAt above note (line :: below))) = _ := taken
  rw [matchAt?_lineAt]
  dsimp only
  rw [first, orElse_some]

/-- Without a header line no comment line matches either. -/
theorem Reads.matchAt?_none (h : Reads body rule) (misses : rule.parts? line = none)
    (next : ∀ line' below', below = line' :: below' → commentText? line ≠ none →
      rule.parts? line' = none) (feed : '\n' ∉ line)
    (long : (line ++ aheadLine below).length ≤ limit) :
    matchAt? (lineHeader body) limit (lineAt above line below) = none := by
  rw [List.length_append] at long
  rw [matchAt?_lineAt, lineAt]
  dsimp only
  rw [run_commentLine_none feed (by omega), orElse_none, readOn, h.fails misses (by omega)]
  by_cases comment : commentText? line = none
  · exact .inr comment
  · refine .inl fun groups => ?_
    cases below with
    | nil => rfl
    | cons line' below' =>
      rw [aheadLine_cons, List.length_cons, List.length_append] at long
      exact h.fails (next line' below' rfl comment) (by omega)

/-! ## Accepting a match -/

theorem isAssignment_iff (rest : List Char) (below : List (List Char)) :
    isAssignment (rest ++ aheadLine below) = true ↔ ['='] <+: rest ∨ [':', '='] <+: rest := by
  rcases rest with _ | ⟨c, _ | ⟨d, rest⟩⟩
  · cases below <;> simp [isAssignment]
  · cases below <;> simp [isAssignment, @eq_comm _ '=']
  · simp [isAssignment, @eq_comm _ '=', @eq_comm _ ':']

theorem group?_target (start : Cursor) (groups : List (String × Span)) (above : List (List Char))
    (lead name front rest : List Char) (below : List (List Char)) :
    (headerFound start groups above lead name front rest below).group? targetGroup =
      some (.covering (lead.reverse ++ behindLine above) name
        (front ++ (rest ++ aheadLine below))) := by
  rw [Found.group?, headerFound, List.lookup_cons_self]

theorem group?_comment (start : Cursor) (groups : List (String × Span)) (above : List (List Char))
    (lead name front rest : List Char) (below : List (List Char)) :
    (headerFound start groups above lead name front rest below).group? commentGroup =
      groups.lookup commentGroup := by
  rw [Found.group?, headerFound, List.lookup_cons]
  rfl

/-- A match is accepted by the rules for its line, with its comment if that begins a line. -/
theorem accept?_headerFound (start : Cursor) (groups : List (String × Span)) {lead : List Char}
    (feed : '\n' ∉ lead) (name front rest : List Char) :
    accept? (headerFound start groups above lead name front rest below) =
      if ['='] <+: rest ∨ [':', '='] <+: rest ∨ isContinued above then none
      else match groups.lookup commentGroup with
      | none => some ⟨String.ofList name, "", lineOffset above, lineOffset above⟩
      | some comment =>
        if isContinuation start.behind then
          some ⟨String.ofList name, "", lineOffset above, lineOffset above⟩
        else some ⟨String.ofList name, comment.text, start.offset, lineOffset above⟩ := by
  have before := beforeLine_between feed above (name ++ (front ++ (rest ++ aheadLine below)))
  have continued : isContinuation (Span.covering (lead.reverse ++ behindLine above) name
      (front ++ (rest ++ aheadLine below))).start.beforeLine = isContinued above := by
    rw [Span.covering, before, isContinuation_behindLine]
  have starts : (Span.covering (lead.reverse ++ behindLine above) name
      (front ++ (rest ++ aheadLine below))).start.lineStart = lineOffset above := by
    rw [Cursor.lineStart_eq, Span.covering, before, width_behindLine]
  have assigned : isAssignment
      (headerFound start groups above lead name front rest below).whole.stop.ahead = true ↔
        ['='] <+: rest ∨ [':', '='] <+: rest := isAssignment_iff rest below
  rw [accept?, group?_target, group?_comment]
  dsimp only
  rw [continued, starts, Span.text_covering]
  by_cases assigns : ['='] <+: rest ∨ [':', '='] <+: rest
  · rw [if_pos (assigned.2 assigns), if_pos (or_assoc.1 (.inl assigns))]
  · rw [if_neg (mt assigned.1 assigns)]
    by_cases goes : isContinued above = true
    · rw [if_pos goes, if_pos (.inr (.inr goes))]
    · rw [if_neg goes, if_neg fun h => (or_assoc.2 h).elim assigns goes]
      cases groups.lookup commentGroup <;> rfl

theorem accept?_header {lead front : List Char} (feed : '\n' ∉ lead)
    (found : rule.parts? line = some (name, rest)) (plain : commentAbove? above = none)
    (start : Cursor) :
    accept? (headerFound start [] above lead name front rest below) = rule.header? above line := by
  rw [accept?_headerFound start [] feed, HeaderRule.header?, found, plain]
  rfl

theorem accept?_comment {lead front note text : List Char} {span : Span} (feed : '\n' ∉ lead)
    (found : rule.parts? line = some (name, rest)) (comment : commentText? note = some text)
    (text_eq : span.chars = text) :
    accept? (headerFound (lineAt above note (line :: below)) [(commentGroup, span)] (note :: above)
      lead name front rest below) = rule.header? (note :: above) line := by
  rw [accept?_headerFound _ _ feed, HeaderRule.header?, found, commentAbove?, List.lookup_cons_self]
  unfold lineAt
  dsimp only
  rw [Cursor.behind_between, Cursor.offset_between, isContinuation_behindLine, width_behindLine,
    Span.text, text_eq, comment]
  by_cases goes : isContinued above = true
  · rw [if_pos goes, if_pos goes]
  · rw [if_neg goes, if_neg goes, List.tail_cons]

end BuildTargets.Grammar
