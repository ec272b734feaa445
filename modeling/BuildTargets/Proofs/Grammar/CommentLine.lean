import BuildTargets.Proofs.Grammar.LineMatch

/-!
# The comment before a header

The comment part of the header patterns takes a whole line with its line feed. Its gaps are greedy
and its text is lazy, so there are many ways to match a line, but they all lead to the start of
the line below, and the first of them gives the text of the comment.
-/

namespace BuildTargets.Grammar

open Text Pattern

variable {α : Type} {limit : Nat} {behind w : List Char} {below : List (List Char)}
  {groups : List (String × Span)} {k : Progress → Option α}

/-! ## The end of a line -/

/-- Goes on at the start of the line below, when the rest of a line is passed. -/
def toNextLine (k : Progress → Option α) (behind w : List Char) (below : List (List Char))
    (groups : List (String × Span)) : Option α :=
  match below with
  | [] => none
  | next :: below =>
    k ⟨.between ('\n' :: (w.reverse ++ behind)) (next ++ aheadLine below), groups⟩

theorem toNextLine_append (u : List Char) :
    toNextLine k (u.reverse ++ behind) w below groups =
      toNextLine k behind (u ++ w) below groups := by
  cases below with
  | nil => rfl
  | cons next below => simp [toNextLine]

def lineEnd : Pattern := .seq (.optional (.char '\r')) (.char '\n')

theorem run_lineFeed (feed : '\n' ∉ w) :
    run limit (.char '\n') ⟨.between behind (w ++ aheadLine below), groups⟩ k =
      if w = [] then toNextLine k behind w below groups else none := by
  cases w with
  | nil =>
    cases below with
    | nil => exact run_char_of_head_ne (by simp)
    | cons next below => exact run_char '\n'
  | cons c w =>
    rw [if_neg (List.cons_ne_nil c w)]
    apply run_char_of_ne
    rintro rfl
    exact feed List.mem_cons_self

theorem run_lineEnd (feed : '\n' ∉ w) :
    run limit lineEnd ⟨.between behind (w ++ aheadLine below), groups⟩ k =
      if dropReturn w = [] then toNextLine k behind w below groups else none := by
  rw [lineEnd, run_seq, run_optional]
  simp only [dropReturn_eq_nil_iff]
  by_cases head : w.head? = some '\r'
  · obtain ⟨rest, rfl⟩ := List.head?_eq_some_iff.1 head
    rw [orElse_left, List.cons_append, run_char, run_lineFeed (List.not_mem_of_not_mem_cons feed)]
    · by_cases empty : rest = []
      · subst empty
        exact toNextLine_append ['\r']
      · simp [empty]
    · rw [run_lineFeed feed, if_neg (List.cons_ne_nil '\r' rest)]
  · have other : w ≠ ['\r'] := by
      rintro rfl
      exact head rfl
    rw [run_char_of_line (by decide) head, orElse_none, run_lineFeed feed]
    simp only [other, or_false]

theorem run_gapEnd (feed : '\n' ∉ w) (long : w.length ≤ limit) :
    run limit (.seq (.manyOf gap) lineEnd) ⟨.between behind (w ++ aheadLine below), groups⟩ k =
      if (dropReturn w).all isGap then toNextLine k behind w below groups else none := by
  have stuck : ∀ {behind ahead : List Char} {c : Char}, gap.contains c = true →
      run limit lineEnd ⟨.between behind (c :: ahead), groups⟩ k = none := by
    intro behind ahead c hc
    rw [contains_gap] at hc
    have feed : c ≠ '\n' := by
      rintro rfl
      exact absurd hc (by decide)
    rw [lineEnd, run_seq, run_optional, run_char_of_ne (ne_return_of_isGap hc), orElse_none,
      run_char_of_ne feed]
  have feed' : '\n' ∉ w.dropWhile isGap := fun h => feed ((List.dropWhile_suffix isGap).mem h)
  rw [run_seq, run_manyOf_line gap (by decide) stuck w long, contains_gap, run_lineEnd feed',
    toNextLine_append, List.takeWhile_append_dropWhile]
  simp only [all_isGap_iff]

/-! ## The text of a comment -/

/-- The text of a comment and what stands behind it. -/
def commentText : Pattern :=
  .seq (.group commentGroup (.rep 0 none false (.one inLine))) (.seq (.manyOf gap) lineEnd)

/-- Without a way on from the line below, and over a carriage return, a comment does not match. -/
theorem run_commentText_none (feed : '\n' ∉ w) (long : w.length ≤ limit)
    (h : (∀ groups, toNextLine k behind w below groups = none) ∨ '\r' ∈ dropReturn w) :
    run limit commentText ⟨.between behind (w ++ aheadLine below), groups⟩ k = none := by
  have misses : ∀ u x groups, u ++ x = w → (∀ c ∈ u, inLine.contains c = true) →
      run limit (.seq (.manyOf gap) lineEnd)
        ⟨.between (u.reverse ++ behind) (x ++ aheadLine below), groups⟩ k = none := by
    rintro u x groups rfl inside
    rw [List.mem_append, not_or] at feed
    rw [List.length_append] at long
    rw [run_gapEnd feed.2 (by omega), toNextLine_append]
    split
    · next gaps =>
      rw [List.all_eq_true] at gaps
      rcases h with stuck | return_mem
      · exact stuck groups
      · have clear : '\r' ∉ u := fun hu => absurd (inside _ hu) (by decide)
        exact absurd (gaps _ (return_mem_dropReturn return_mem clear)) (by decide)
    · rfl
  obtain ⟨parts, inside, stop, short⟩ := stretch inLine (by decide) w below
  have split := List.takeWhile_append_dropWhile (p := inLine.contains) (l := w)
  rw [commentText, run_seq, run_group, parts, run_fewOf inside ?_ (.inl stop) (by omega)]
  · exact misses _ _ _ split inside
  · intro u c x inner
    rw [← List.append_assoc]
    refine misses u _ _ ?_ fun d hd => inside d (by rw [inner]; exact List.mem_append_left _ hd)
    rw [← List.append_assoc, ← inner, split]

/-- The text of a comment is the shortest one behind which the line can end. -/
theorem run_commentText {text after ending : List Char} (gaps : ∀ c ∈ after, isGap c = true)
    (ends : ending = [] ∨ ending = ['\r']) (clear : '\r' ∉ text)
    (feed : '\n' ∉ text ++ (after ++ ending)) (last : ∀ c, text.getLast? = some c → isGap c = false)
    (long : (text ++ (after ++ ending)).length ≤ limit)
    (goes : ∀ groups, toNextLine k behind (text ++ (after ++ ending)) below groups ≠ none) :
    run limit commentText
        ⟨.between behind (text ++ (after ++ ending) ++ aheadLine below), groups⟩ k =
      toNextLine k behind (text ++ (after ++ ending)) below
        ((commentGroup, .covering behind text (after ++ ending ++ aheadLine below)) :: groups) := by
  have clear' : '\r' ∉ after := fun h => ne_return_of_isGap (gaps _ h) rfl
  rw [List.mem_append, not_or] at feed
  rw [List.length_append] at long
  have whole : ∀ groups, run limit (.seq (.manyOf gap) lineEnd)
      ⟨.between (text.reverse ++ behind) (after ++ ending ++ aheadLine below), groups⟩ k =
        toNextLine k behind (text ++ (after ++ ending)) below groups := by
    intro groups
    rw [run_gapEnd feed.2 (by omega), toNextLine_append, dropReturn_append_ending clear' ends,
      if_pos (List.all_eq_true.2 gaps)]
  have inside : ∀ c ∈ text, inLine.contains c = true := by
    intro c hc
    rw [contains_inLine, Bool.and_eq_true, bne_iff_ne, bne_iff_ne]
    exact ⟨ne_of_mem_of_not_mem hc clear, ne_of_mem_of_not_mem hc feed.1⟩
  rw [commentText, run_seq, run_group, List.append_assoc, run_fewOf inside ?_ (.inr ?_) (by omega)]
  · exact whole _
  · intro u c x inner
    subst inner
    have parts : c :: x ++ (after ++ ending ++ aheadLine below) =
        c :: x ++ after ++ ending ++ aheadLine below := by simp
    have front : dropReturn (c :: x ++ after ++ ending) = c :: x ++ after := by
      refine dropReturn_append_ending ?_ ends
      rw [List.mem_append, not_or]
      exact ⟨fun h => clear (List.mem_append_right u h), clear'⟩
    rw [parts, run_gapEnd, front, if_neg (not_all_isGap last after)]
    · simp_all
    · simp at long ⊢
      omega
  · rw [whole]
    exact goes _

/-! ## Comment lines -/

/-- A comment line with its line feed. -/
def commentLine : Pattern := .seq (.char '#') (.seq (.manyOf gap) commentText)

theorem leadingComment_eq : leadingComment = .optional commentLine := rfl

/-- A line that is no comment does not match as one, nor does a comment with no way on below. -/
theorem run_commentLine_none (feed : '\n' ∉ w) (long : w.length ≤ limit)
    (h : (∀ groups, toNextLine k behind w below groups = none) ∨ commentText? w = none) :
    run limit commentLine ⟨.between behind (w ++ aheadLine below), groups⟩ k = none := by
  by_cases head : w.head? = some '#'
  · obtain ⟨rest, rfl⟩ := List.head?_eq_some_iff.1 head
    have feed' := List.not_mem_of_not_mem_cons feed
    have misses : ∀ u x, u ++ x = rest → (∀ c ∈ u, gap.contains c = true) →
        run limit commentText ⟨.between (u.reverse ++ '#' :: behind) (x ++ aheadLine below), groups⟩
          k = none := by
      rintro u x rfl gaps
      rw [List.mem_append, not_or] at feed'
      simp only [List.length_cons, List.length_append] at long
      refine run_commentText_none feed'.2 (by omega) ?_
      rcases h with stuck | none
      · refine .inl fun groups => ?_
        rw [toNextLine_append]
        exact (toNextLine_append ['#']).trans (stuck groups)
      · rw [commentText?_eq_none_iff] at none
        rw [contains_gap] at gaps
        exact .inr (return_mem_dropReturn none fun hu => ne_return_of_isGap (gaps _ hu) rfl)
    obtain ⟨parts, inside, stop, short⟩ := stretch gap (by decide) rest below
    have split := List.takeWhile_append_dropWhile (p := gap.contains) (l := rest)
    rw [List.length_cons] at long
    rw [commentLine, run_seq, List.cons_append, run_char, run_seq, parts,
      run_manyOf inside stop ?_ (by omega)]
    · exact misses _ _ split inside
    · intro u x inner _
      rw [← List.append_assoc]
      refine misses u _ ?_ fun c hc => inside c (by rw [inner]; exact List.mem_append_left x hc)
      rw [← List.append_assoc, ← inner, split]
  · rw [commentLine, run_seq, run_char_of_line (by decide) head]

/-- If what follows goes on at the line below, a comment line is taken whole, with its text. -/
theorem run_commentLine_of_goes {line before text after ending : List Char}
    (h : IsComment line before text after ending) (feed : '\n' ∉ line) (long : line.length ≤ limit)
    (goes : ∀ groups, toNextLine k behind line below groups ≠ none) :
    run limit commentLine ⟨.between behind (line ++ aheadLine below), groups⟩ k =
      toNextLine k behind line below ((commentGroup,
        .covering (before.reverse ++ '#' :: behind) text (after ++ ending ++ aheadLine below))
          :: groups) := by
  obtain ⟨rfl, before_gap, after_gap, ends, clear, first, last⟩ := h
  have moved : ∀ groups, toNextLine k (before.reverse ++ '#' :: behind) (text ++ (after ++ ending))
      below groups =
        toNextLine k behind ('#' :: (before ++ (text ++ (after ++ ending)))) below groups :=
    fun groups => (toNextLine_append before).trans (toNextLine_append ['#'])
  rw [List.length_cons, List.length_append] at long
  have taken : ∀ groups, run limit commentText ⟨.between (before.reverse ++ '#' :: behind)
      (text ++ (after ++ ending) ++ aheadLine below), groups⟩ k =
        toNextLine k behind ('#' :: (before ++ (text ++ (after ++ ending)))) below
          ((commentGroup, .covering (before.reverse ++ '#' :: behind) text
            (after ++ ending ++ aheadLine below)) :: groups) := by
    intro groups
    rw [← moved]
    refine run_commentText after_gap ends clear ?_ last (by omega) fun groups => ?_
    · exact fun h => feed (List.mem_cons_of_mem _ (List.mem_append_right _ h))
    · rw [moved]
      exact goes groups
  have stop : gap.holds (text ++ (after ++ ending) ++ aheadLine below).head? = false := by
    rw [← List.append_assoc]
    generalize text ++ after = shown at first
    cases shown with
    | nil => rcases ends with rfl | rfl <;> cases below <;> rfl
    | cons c shown =>
      have := first c rfl
      rwa [← contains_gap] at this
  rw [commentLine, run_seq, List.cons_append, run_char, run_seq, List.append_assoc,
    run_manyOf (by rwa [contains_gap]) stop ?_ (by omega)]
  · exact taken groups
  · intro u x _ none
    exact absurd none (by rw [taken]; exact goes _)

/-- A comment line is taken whole, with its text, if the way on from the line below does not
depend on the groups. -/
theorem run_commentLine {line text : List Char} (h : commentText? line = some text)
    (feed : '\n' ∉ line) (long : line.length ≤ limit)
    (same : ∀ groups groups', toNextLine k behind line below groups = none →
      toNextLine k behind line below groups' = none) :
    ∃ span : Span, span.chars = text ∧
      run limit commentLine ⟨.between behind (line ++ aheadLine below), groups⟩ k =
        toNextLine k behind line below ((commentGroup, span) :: groups) := by
  by_cases stuck : ∀ groups, toNextLine k behind line below groups = none
  · refine ⟨.covering [] text [], Span.chars_covering [] text [], ?_⟩
    rw [run_commentLine_none feed long (.inl stuck), stuck]
  · obtain ⟨before, after, ending, parts⟩ := isComment_of_commentText? h
    have goes : ∀ groups, toNextLine k behind line below groups ≠ none := by
      intro groups none
      exact stuck fun groups' => same groups groups' none
    exact ⟨_, Span.chars_covering _ text _, run_commentLine_of_goes parts feed long goes⟩

end BuildTargets.Grammar
