import BuildTargets.Proofs.Grammar.LineRule
import BuildTargets.Proofs.Pattern.Run

/-!
# Header patterns at the start of a line

What the built-in header patterns match where a line begins. The part of a pattern behind the
comment `Reads` a line by a rule: it succeeds in one way if the line has the form of a header, and
not at all if it has not. The comment before it takes one whole line.
-/

namespace BuildTargets.Grammar

open Text Pattern

/-! ## Sets of characters -/

theorem contains_gap : gap.contains = isGap := by
  funext c
  rw [gap, CharSet.contains_ofList, isGap, List.contains_cons, List.contains_cons,
    List.contains_nil, Bool.or_false]

theorem isAlphanum_eq (c : Char) :
    c.isAlphanum = (('A' ≤ c && c ≤ 'Z') || ('a' ≤ c && c ≤ 'z') || ('0' ≤ c && c ≤ '9')) := by
  have upper : c.isUpper = ('A' ≤ c && c ≤ 'Z') := Bool.decide_and _ _
  show (c.isUpper || c.isLower || c.isDigit) = _
  rw [upper]
  rfl

theorem contains_nameChar : nameChar.contains = isNameChar := by
  funext c
  simp only [nameChar, CharSet.contains, CharSet.contains_ofList, List.contains_cons,
    List.contains_nil, Bool.or_false, isNameChar, Bool.or_assoc]
  congr 1
  rw [isAlphanum_eq, Bool.or_comm]
  rfl

theorem contains_inLine (c : Char) : inLine.contains c = (c != '\r' && c != '\n') := by
  simp only [inLine, CharSet.contains, CharSet.contains_ofList, List.contains_cons,
    List.contains_nil, Bool.or_false, Bool.not_or, bne]

def parameterChar : CharSet := inLine.inter (CharSet.one ':').compl

theorem contains_parameterChar : parameterChar.contains = isParameterChar := by
  funext c
  simp only [parameterChar, CharSet.contains, contains_inLine, CharSet.contains_one,
    isParameterChar, bne]
  rw [Bool.and_comm, Bool.and_assoc]

variable {α : Type} {limit : Nat} {set : CharSet} {behind : List Char} {below : List (List Char)}
  {groups : List (String × Span)} {k : Progress → Option α}

/-! ## On a line -/

/-- The characters of a set at the start of a line, and what follows them. -/
structure Stretch (set : CharSet) (line : List Char) (below : List (List Char))
    (w rest : List Char) : Prop where
  parts : line ++ aheadLine below = w ++ rest
  inside : ∀ c ∈ w, set.contains c = true
  stop : set.holds rest.head? = false
  short : w.length ≤ line.length

theorem stretch (set : CharSet) (feed : set.contains '\n' = false) (line : List Char)
    (below : List (List Char)) :
    Stretch set line below (line.takeWhile set.contains)
      (line.dropWhile set.contains ++ aheadLine below) where
  parts := by rw [← List.append_assoc, List.takeWhile_append_dropWhile]
  inside := List.all_eq_true.1 List.all_takeWhile
  stop := by
    cases h : line.dropWhile set.contains with
    | nil => cases below <;> simp [CharSet.holds, feed]
    | cons c rest => exact not_of_head?_dropWhile (w := line) (by rw [h]; rfl)
  short := (List.takeWhile_sublist set.contains).length_le

/-- The greedy repetition takes the run of its set, if the continuation cannot begin with a
character of the set. -/
theorem run_manyOf_line (set : CharSet) (feed : set.contains '\n' = false)
    (stuck : ∀ {behind ahead : List Char} {c : Char}, set.contains c = true →
      k ⟨.between behind (c :: ahead), groups⟩ = none)
    (line : List Char) (long : line.length ≤ limit) :
    run limit (manyOf set) ⟨.between behind (line ++ aheadLine below), groups⟩ k =
      k ⟨.between ((line.takeWhile set.contains).reverse ++ behind)
        (line.dropWhile set.contains ++ aheadLine below), groups⟩ := by
  obtain ⟨parts, inside, stop, short⟩ := stretch set feed line below
  rw [parts]
  exact run_manyOf inside stop (longest_of_stuck inside stuck) (Nat.le_trans short long)

theorem run_char_of_line {c : Char} (hc : c ≠ '\n') {line : List Char} (h : line.head? ≠ some c) :
    run limit (char c) ⟨.between behind (line ++ aheadLine below), groups⟩ k = none := by
  apply run_char_of_head_ne
  cases line with
  | nil => cases below <;> simp [Ne.symm hc]
  | cons d line => exact h

/-! ## Up to the colon -/

theorem run_colon (rest : List Char) :
    run limit (char ':') ⟨.between behind (rest ++ aheadLine below), groups⟩ k =
      match rest with
      | ':' :: body => k ⟨.between (':' :: behind) (body ++ aheadLine below), groups⟩
      | _ => none := by
  split
  · exact run_char ':'
  · next other =>
    apply run_char_of_line (by decide)
    intro head
    obtain ⟨body, colon⟩ := List.head?_eq_some_iff.1 head
    exact other body colon

/-- The way to the colon over a set without it is the whole run of the set. -/
theorem run_manyOf_colon (feed : set.contains '\n' = false) (colon : set.contains ':' = false)
    (rest : List Char) (long : rest.length ≤ limit) :
    run limit (manyOf set) ⟨.between behind (rest ++ aheadLine below), groups⟩
        (fun next => run limit (char ':') next k) =
      run limit (char ':') ⟨.between ((rest.takeWhile set.contains).reverse ++ behind)
        (rest.dropWhile set.contains ++ aheadLine below), groups⟩ k := by
  refine run_manyOf_line set feed ?_ rest long
  intro behind ahead c hc
  apply run_char_of_ne
  rintro rfl
  rw [colon] at hc
  cases hc

/-- A pattern that passes on a line what a rule passes before the colon. It does not go on with a
name. -/
structure Passes (pattern : Pattern) (pass : List Char → List Char) : Prop where
  stuck : ∀ {α : Type} {limit : Nat} {behind ahead : List Char} {groups : List (String × Span)}
    {k : Progress → Option α} {c : Char}, isNameChar c = true →
    run limit (seq pattern (char ':')) ⟨.between behind (c :: ahead), groups⟩ k = none
  run_eq : ∀ rest : List Char, ∃ passed, passed ++ pass rest = rest ∧
    ∀ {α : Type} {limit : Nat} {behind : List Char} {below : List (List Char)}
      {groups : List (String × Span)} {k : Progress → Option α}, rest.length ≤ limit →
    run limit (seq pattern (char ':')) ⟨.between behind (rest ++ aheadLine below), groups⟩ k =
      run limit (char ':') ⟨.between (passed.reverse ++ behind) (pass rest ++ aheadLine below),
        groups⟩ k

theorem isGap_of_isNameChar {c : Char} (h : isNameChar c = true) : isGap c = false := by
  cases hc : isGap c with
  | false => rfl
  | true =>
    rw [isGap, Bool.or_eq_true, beq_iff_eq, beq_iff_eq] at hc
    rcases hc with rfl | rfl <;> exact absurd h (by decide)

theorem isParameterChar_of_isGap {c : Char} (h : isGap c = true) : isParameterChar c = true := by
  rw [isGap, Bool.or_eq_true, beq_iff_eq, beq_iff_eq] at h
  rcases h with rfl | rfl <;> decide

theorem gap_not_holds {c : Char} (h : isNameChar c = true) (ahead : List Char) :
    gap.holds (c :: ahead).head? = false := by
  rw [List.head?_cons, CharSet.holds, contains_gap, isGap_of_isNameChar h]

theorem ne_colon_of_isNameChar {c : Char} (h : isNameChar c = true) : c ≠ ':' := by
  rintro rfl
  exact absurd h (by decide)

theorem passes_gap : Passes (.manyOf gap) makeRule.pass where
  stuck := by
    intro α limit behind ahead groups k c hc
    rw [run_seq, run_manyOf_of_not_holds (gap_not_holds hc ahead),
      run_char_of_ne (ne_colon_of_isNameChar hc)]
  run_eq := by
    intro rest
    refine ⟨rest.takeWhile isGap, List.takeWhile_append_dropWhile, ?_⟩
    intro α limit behind below groups k long
    rw [run_seq, run_manyOf_colon (by decide) (by decide) rest long, contains_gap]
    rfl

/-- Over parameters the colon is found in one place, however much of their gap is taken first. -/
theorem run_parameters {rest : List Char} (gapped : rest.head?.any isGap = true)
    (long : rest.length ≤ limit) :
    run limit (seq (.someOf gap) (.manyOf parameterChar))
        ⟨.between behind (rest ++ aheadLine below), groups⟩
        (fun next => run limit (char ':') next k) =
      run limit (char ':') ⟨.between ((rest.takeWhile isParameterChar).reverse ++ behind)
        (rest.dropWhile isParameterChar ++ aheadLine below), groups⟩ k := by
  have colon : ∀ u x, u ++ x = rest → (∀ c ∈ u, isGap c = true) →
      run limit (manyOf parameterChar)
          ⟨.between (u.reverse ++ behind) (x ++ aheadLine below), groups⟩
          (fun next => run limit (char ':') next k) =
        run limit (char ':') ⟨.between ((rest.takeWhile isParameterChar).reverse ++ behind)
          (rest.dropWhile isParameterChar ++ aheadLine below), groups⟩ k := by
    intro u x split gaps
    have inner : ∀ c ∈ u, isParameterChar c = true := fun c hc =>
      isParameterChar_of_isGap (gaps c hc)
    have short : x.length ≤ rest.length := by rw [← split, List.length_append]; omega
    rw [run_manyOf_colon (by decide) (by decide) x (by omega), contains_parameterChar, ← split,
      List.takeWhile_append_of_pos inner, List.dropWhile_append_of_pos inner,
      List.reverse_append, List.append_assoc]
  obtain ⟨c, w, cons⟩ : ∃ c w, rest.takeWhile isGap = c :: w := by
    cases rest with
    | nil => cases gapped
    | cons c tail => exact ⟨c, tail.takeWhile isGap, List.takeWhile_cons_of_pos gapped⟩
  have gaps : ∀ d ∈ c :: w, isGap d = true := cons ▸ List.all_eq_true.1 List.all_takeWhile
  have split : c :: w ++ rest.dropWhile isGap = rest := by
    rw [← cons, List.takeWhile_append_dropWhile]
  obtain ⟨parts, -, stop, short⟩ := stretch gap (by decide) rest below
  rw [contains_gap, cons] at parts short
  rw [contains_gap] at stop
  generalize rest.dropWhile isGap = tail at split stop parts
  rw [run_seq, parts, ← colon (c :: w) tail split gaps]
  refine run_someOf (by rwa [contains_gap]) stop (fun u x inner fails => ?_)
    (by rw [List.length_cons] at short; omega)
  rw [colon (c :: w) tail split gaps] at fails
  rw [← List.append_assoc, colon (c :: u) (x ++ tail), fails]
  · rw [← split, inner, List.cons_append, List.cons_append, List.append_assoc]
  · exact fun d hd => gaps d (by rw [inner]; exact List.mem_append_left x hd)

theorem passes_parameters :
    Passes (.optional (.seq (.someOf gap) (.manyOf parameterChar))) justRule.pass where
  stuck := by
    intro α limit behind ahead groups k c hc
    rw [run_seq, run_optional, run_seq, run_someOf_of_not_holds (gap_not_holds hc ahead),
      orElse_none, run_char_of_ne (ne_colon_of_isNameChar hc)]
  run_eq := by
    intro rest
    cases gapped : rest.head?.any isGap with
    | false =>
      refine ⟨[], by simp [justRule, gapped], ?_⟩
      intro α limit behind below groups k long
      have outside : gap.holds (rest ++ aheadLine below).head? = false := by
        cases rest with
        | nil => cases below <;> rfl
        | cons c rest => simpa [CharSet.holds, contains_gap] using gapped
      rw [run_seq, run_optional, run_seq, run_someOf_of_not_holds outside, orElse_none]
      simp [justRule, gapped]
    | true =>
      refine ⟨rest.takeWhile isParameterChar, by simp [justRule, gapped], ?_⟩
      intro α limit behind below groups k long
      have skipped : run limit (char ':') ⟨.between behind (rest ++ aheadLine below), groups⟩ k =
          none := by
        rw [run_colon]
        split
        · cases gapped
        · rfl
      rw [run_seq, run_optional, run_parameters gapped long, skipped]
      simp only [justRule, gapped, if_true]
      exact orElse_left rfl

/-- A name is taken whole, if what comes behind it does not go on with a name. -/
theorem run_targetName {tail : Pattern}
    (stuck : ∀ {behind ahead : List Char} {groups : List (String × Span)} {c : Char},
      isNameChar c = true → run limit tail ⟨.between behind (c :: ahead), groups⟩ k = none)
    {line : List Char} (named : line.takeWhile isNameChar ≠ []) (long : line.length ≤ limit) :
    let name := line.takeWhile isNameChar
    let rest := line.dropWhile isNameChar ++ aheadLine below
    run limit (seq targetName tail) ⟨.between behind (line ++ aheadLine below), groups⟩ k =
      run limit tail ⟨.between (name.reverse ++ behind) rest,
        (targetGroup, Span.covering behind name rest) :: groups⟩ k := by
  intro name rest
  obtain ⟨parts, inside, stop, short⟩ : Stretch nameChar line below name rest := by
    have run := stretch nameChar (by decide) line below
    rwa [contains_nameChar] at run
  rw [parts, run_seq, targetName, run_group]
  obtain ⟨c, w, cons⟩ : ∃ c w, name = c :: w := List.exists_cons_of_ne_nil named
  generalize name = name at *
  subst cons
  refine run_someOf inside stop (fun u x split => ?_) (by rw [List.length_cons] at short; omega)
  refine longest_of_stuck (k := fun next => run limit tail
    ⟨next.here, (targetGroup, ⟨.between behind (c :: w ++ rest), next.here⟩) :: next.groups⟩ k)
    inside (fun hc => stuck ?_) (c :: u) x (by rw [split]; rfl)
  rwa [contains_nameChar] at hc

/-- A pattern that matches a line in one way if a rule gives it the form of a header, and in none
otherwise. -/
structure Reads (pattern : Pattern) (rule : HeaderRule) : Prop where
  fails : ∀ {α : Type} {limit : Nat} {behind line : List Char} {below : List (List Char)}
    {groups : List (String × Span)} {k : Progress → Option α},
    rule.parts? line = none → line.length ≤ limit →
    run limit pattern ⟨.between behind (line ++ aheadLine below), groups⟩ k = none
  finds : ∀ {line name body : List Char}, rule.parts? line = some (name, body) →
    ∃ lead front, front ≠ [] ∧ line = lead ++ (name ++ (front ++ body)) ∧
    ∀ {α : Type} {limit : Nat} {behind : List Char} {below : List (List Char)}
      {groups : List (String × Span)} {k : Progress → Option α}, line.length ≤ limit →
    run limit pattern ⟨.between behind (line ++ aheadLine below), groups⟩ k =
      k ⟨.between (front.reverse ++ (name.reverse ++ (lead.reverse ++ behind)))
          (body ++ aheadLine below),
        (targetGroup, .covering (lead.reverse ++ behind) name
          (front ++ (body ++ aheadLine below))) :: groups⟩

theorem Passes.reads {pattern : Pattern} {pass : List Char → List Char}
    (h : Passes pattern pass) : Reads (seq targetName (seq pattern (char ':'))) ⟨false, pass⟩ where
  fails := by
    intro α limit behind line below groups k misses long
    by_cases named : line.takeWhile isNameChar = []
    · obtain ⟨parts, -, stop, -⟩ := stretch nameChar (by decide) line below
      rw [contains_nameChar, named, List.nil_append] at parts
      rw [contains_nameChar, ← parts] at stop
      rw [run_seq, targetName, run_group, run_someOf_of_not_holds stop]
    · have short := (List.dropWhile_suffix (l := line) isNameChar).length_le
      obtain ⟨passed, -, run⟩ := h.run_eq (line.dropWhile isNameChar)
      rw [run_targetName h.stuck named long, run (Nat.le_trans short long), run_colon]
      split
      · next body colon =>
        have found := HeaderRule.parts?_plain.2 ⟨named, rfl, colon⟩
        rw [misses] at found
        cases found
      · rfl
  finds := by
    intro line name body found
    obtain ⟨named, rfl, colon⟩ := HeaderRule.parts?_plain.1 found
    have short := (List.dropWhile_suffix (l := line) isNameChar).length_le
    obtain ⟨passed, whole, run⟩ := h.run_eq (line.dropWhile isNameChar)
    rw [colon] at whole
    refine ⟨[], passed ++ [':'], by simp, ?_, ?_⟩
    · rw [List.nil_append, List.append_assoc, List.singleton_append, whole,
        List.takeWhile_append_dropWhile]
    · intro α limit behind below groups k long
      rw [run_targetName h.stuck named long, run (Nat.le_trans short long), run_colon, colon,
        ← whole]
      simp

theorem Reads.run_mark {pattern : Pattern} {pass : List Char → List Char}
    (h : Reads pattern ⟨false, pass⟩) {line : List Char} (long : line.length < limit) :
    run limit (seq (.optional (.char '@')) pattern)
        ⟨.between behind ('@' :: line ++ aheadLine below), groups⟩ k =
      run limit pattern ⟨.between ('@' :: behind) (line ++ aheadLine below), groups⟩ k := by
  rw [run_seq, run_optional, orElse_left, List.cons_append, run_char]
  exact h.fails (HeaderRule.parts?_plain_mark pass line) long

theorem run_no_mark {pattern : Pattern} {line : List Char} (h : line.head? ≠ some '@') :
    run limit (seq (.optional (.char '@')) pattern)
        ⟨.between behind (line ++ aheadLine below), groups⟩ k =
      run limit pattern ⟨.between behind (line ++ aheadLine below), groups⟩ k := by
  rw [run_seq, run_optional, run_char_of_line (by decide) h, orElse_none]

theorem mark_or (line : List Char) : (∃ rest, line = '@' :: rest) ∨ line.head? ≠ some '@' := by
  cases line with
  | nil => exact .inr (by simp)
  | cons c line =>
    by_cases hc : c = '@'
    · exact .inl ⟨line, by rw [hc]⟩
    · exact .inr (by simpa using hc)

theorem Reads.quiet {pattern : Pattern} {pass : List Char → List Char}
    (h : Reads pattern ⟨false, pass⟩) :
    Reads (seq (.optional (.char '@')) pattern) ⟨true, pass⟩ where
  fails := by
    intro α limit behind line below groups k misses long
    rcases mark_or line with ⟨rest, rfl⟩ | unmarked
    · rw [h.run_mark long]
      exact h.fails (by rwa [HeaderRule.parts?_mark] at misses) (Nat.le_of_lt long)
    · rw [run_no_mark unmarked]
      exact h.fails (by rwa [HeaderRule.parts?_no_mark pass unmarked] at misses) long
  finds := by
    intro line name body found
    rcases mark_or line with ⟨rest, rfl⟩ | unmarked
    · rw [HeaderRule.parts?_mark] at found
      obtain ⟨lead, front, fronted, split, run⟩ := h.finds found
      refine ⟨'@' :: lead, front, fronted, by rw [split]; rfl, ?_⟩
      intro α limit behind below groups k long
      rw [h.run_mark long, run (Nat.le_of_lt long)]
      simp
    · rw [HeaderRule.parts?_no_mark pass unmarked] at found
      obtain ⟨lead, front, fronted, split, run⟩ := h.finds found
      refine ⟨lead, front, fronted, split, ?_⟩
      intro α limit behind below groups k long
      rw [run_no_mark unmarked, run long]

theorem reads_make : Reads (.seqs [targetName, .manyOf gap, .char ':']) makeRule :=
  passes_gap.reads

theorem reads_just : Reads (.seqs [.optional (.char '@'), targetName,
    .optional (.seq (.someOf gap) (.manyOf parameterChar)), .char ':']) justRule :=
  passes_parameters.reads.quiet

end BuildTargets.Grammar
