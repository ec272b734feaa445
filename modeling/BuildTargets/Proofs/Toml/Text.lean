import BuildTargets.Toml.Reader
import Mathlib.Data.List.TakeWhile

/-!
# Written texts are read back

A text is read back as it was in the style that is chosen for it, whatever characters it has, as
long as no quote follows. The same goes for keys.
-/

namespace BuildTargets.Toml

open Text

/-! ## Escapes -/

theorem charOfHex?_escape {c : Char} (control : c.toNat < 0x20 ∨ c = '\x7f') :
    charOfHex? ['0', '0', (hexDigit (c.toNat / 16)).toUpper, (hexDigit (c.toNat % 16)).toUpper] =
      some c := by
  have codes : ∀ code < 128, charOfHex? ['0', '0', (hexDigit (code / 16)).toUpper,
      (hexDigit (code % 16)).toUpper] = some (Char.ofNat code) := by decide
  have low : c.toNat < 128 := by
    rcases control with low | rfl
    · omega
    · decide
  rw [codes c.toNat low, Char.ofNat_toNat]

/-- A character is written with a letter behind a backslash, or with its code, or as it is. -/
theorem escape_cases (c : Char) :
    (∃ letter, escape c = ['\\', letter] ∧ escaped? letter = some c) ∨
    (∃ a b, escape c = ['\\', 'u', '0', '0', a, b] ∧ charOfHex? ['0', '0', a, b] = some c) ∨
    (escape c = [c] ∧ c ≠ '\\' ∧ c ≠ '\n' ∧ isControl c = false) := by
  unfold escape
  split
  · exact .inl ⟨_, rfl, rfl⟩
  · exact .inl ⟨_, rfl, rfl⟩
  · exact .inl ⟨_, rfl, rfl⟩
  · exact .inl ⟨_, rfl, rfl⟩
  · exact .inl ⟨_, rfl, rfl⟩
  · exact .inl ⟨_, rfl, rfl⟩
  · next _ _ _ lineFeed _ _ backslash =>
    by_cases control : c.toNat < 0x20 ∨ c = '\x7f'
    · rw [if_pos (by simpa using control)]
      exact .inr (.inl ⟨_, _, rfl, charOfHex?_escape control⟩)
    · rw [if_neg (by simpa using control)]
      refine .inr (.inr ⟨rfl, backslash, lineFeed, ?_⟩)
      simp only [not_or, Nat.not_lt] at control
      simp [isControl, Nat.not_lt.2 control.1, control.2]

/-! ## Texts on one line -/

theorem readBasic_escape (c : Char) (rest : List Char) (quote : c ≠ '"') :
    readBasic (escape c ++ rest) = pushChar (some c) (readBasic rest) := by
  rcases escape_cases c with ⟨letter, written, code⟩ | ⟨a, b, written, code⟩ |
    ⟨written, backslash, lineFeed, control⟩
  · rw [written, ← code]
    show readBasic ('\\' :: letter :: rest) = _
    rw [readBasic]
    · rintro _ _ _ ⟨⟩
      cases code
    · rintro _ _ _ _ _ ⟨⟩
      cases code
    · rintro _ _ _ _ _ _ _ _ _ ⟨⟩
      cases code
  · rw [written, ← code]
    rfl
  · rw [written, List.singleton_append, readBasic, if_neg (by simp [backslash, lineFeed, control])]
    · exact quote
    all_goals
      intros
      exact backslash ‹_›

theorem readBasic_escapeAll (text rest : List Char) :
    readBasic (escapeAll false 0 0 text ++ '"' :: rest) = some (text, rest) := by
  induction text with
  | nil => rfl
  | cons c text ih =>
    by_cases quote : c = '"'
    · subst quote
      show readBasic ('\\' :: '"' :: (escapeAll false 0 0 text ++ '"' :: rest)) = _
      rw [readBasic, ih]
      · rfl
      all_goals
        intros
        contradiction
    · rw [escapeAll, if_neg quote, Bool.and_false, if_neg Bool.false_ne_true, List.append_assoc,
        readBasic_escape c _ quote, ih]
      rfl

theorem readLiteral_append {text : List Char} (rest : List Char) (quote : '\'' ∉ text)
    (lineFeed : '\n' ∉ text) (control : ∀ c ∈ text, isControl c = false) :
    readLiteral (text ++ '\'' :: rest) = some (text, rest) := by
  induction text with
  | nil => rfl
  | cons c text ih =>
    simp only [List.mem_cons, not_or, forall_eq_or_imp] at quote lineFeed control
    have plain : ¬(c = '\n' || isControl c) = true := by
      simp [Ne.symm lineFeed.1, control.1]
    rw [List.cons_append, readLiteral, if_neg plain, ih quote.2 lineFeed.2 control.2]
    · rfl
    · exact fun same => quote.1 same.symm

/-! ## Texts on several lines -/

theorem closeLines_of_ne {quote c : Char} {rest : List Char} (h : c ≠ quote) :
    closeLines quote (c :: rest) = none := by
  simp [closeLines, h]

theorem readBasicLines_letter {c letter : Char} (rest : List Char)
    (code : escaped? letter = some c) :
    readBasicLines false false ('\\' :: letter :: rest) =
      pushChar (some c) (readBasicLines false false rest) := by
  rw [← code, readBasicLines.eq_def]
  have letters : letter ∈ ['b', 't', 'n', 'f', 'r', 'e', '"', '\\'] := by
    unfold escaped? at code
    split at code <;> cases code <;> decide
  simp only [List.mem_cons, List.not_mem_nil, or_false] at letters
  rcases letters with rfl | rfl | rfl | rfl | rfl | rfl | rfl | rfl <;> simp [closeLines_of_ne]

theorem readBasicLines_plain {c : Char} (rest : List Char)
    (unclosed : closeLines '"' (c :: rest) = none) (backslash : c ≠ '\\')
    (control : isControl c = false) :
    readBasicLines false false (c :: rest) =
      pushChar (some c) (readBasicLines false false rest) := by
  have carriage : c ≠ '\r' := by
    rintro rfl
    cases control
  by_cases lineFeed : c = '\n'
  · subst lineFeed
    rw [readBasicLines.eq_def]
    simp
  · rw [readBasicLines.eq_def]
    simp [unclosed, carriage, backslash, control]

theorem readBasicLines_escape (c : Char) (rest : List Char) (quote : c ≠ '"') :
    readBasicLines false false (escape c ++ rest) =
      pushChar (some c) (readBasicLines false false rest) := by
  rcases escape_cases c with ⟨letter, written, code⟩ | ⟨a, b, written, code⟩ |
    ⟨written, backslash, -, control⟩
  · rw [written]
    exact readBasicLines_letter rest code
  · rw [written, ← code]
    show readBasicLines false false ('\\' :: 'u' :: '0' :: '0' :: a :: b :: rest) = _
    rw [readBasicLines.eq_def]
    simp [closeLines_of_ne]
  · rw [written]
    exact readBasicLines_plain rest (closeLines_of_ne quote) backslash control

/-- At most two quotes of a text stand before the three that close it: either the text ends there
or it is not closed yet. -/
theorem closeLines_append {quote : Char} (text : List Char) {rest : List Char}
    (few : (text.takeWhile (· == quote)).length ≤ 2) (next : rest.head? ≠ some quote) :
    closeLines quote (text ++ quote :: quote :: quote :: rest) =
      if text.all (· == quote) then some (text, rest) else none := by
  by_cases quotes : text.all (· == quote) = true
  · have each : ∀ c ∈ text, c = quote := by simpa using quotes
    have all : ∀ c ∈ text ++ [quote, quote, quote], (c == quote) = true := by
      simpa [or_imp, forall_and] using each
    have none_next : rest.takeWhile (· == quote) = [] := by
      cases rest with
      | nil => rfl
      | cons c rest => exact List.takeWhile_cons_of_neg (by simpa using next)
    have count : ((text ++ quote :: quote :: quote :: rest).takeWhile (· == quote)).length =
        text.length + 3 := by
      have split : text ++ quote :: quote :: quote :: rest =
          (text ++ [quote, quote, quote]) ++ rest := by simp
      rw [split, List.takeWhile_append_of_pos all, none_next]
      simp
    have length : text.length ≤ 2 := by
      rwa [List.takeWhile_eq_self_iff.2 (by simpa using each)] at few
    have same : List.replicate text.length quote = text := (List.eq_replicate_of_mem each).symm
    unfold closeLines
    dsimp only
    rw [count, if_neg (by omega), Nat.min_eq_left (by omega), Nat.add_sub_cancel, same,
      if_pos quotes]
    simp
  · have count : (text ++ quote :: quote :: quote :: rest).takeWhile (· == quote) =
        text.takeWhile (· == quote) := by
      rw [List.takeWhile_append, if_neg]
      intro full
      exact quotes (by simpa [List.takeWhile_eq_self_iff] using
        (List.takeWhile_prefix (· == quote)).eq_of_length full)
    unfold closeLines
    dsimp only
    rw [count, if_pos (by omega), if_neg quotes]

theorem readBasicLines_closed {chars : List Char} {found : List Char × List Char}
    (closed : closeLines '"' chars = some found) :
    readBasicLines false false chars = some found := by
  cases chars with
  | nil => cases closed
  | cons c rest =>
    by_cases quote : c = '"'
    · subst quote
      rw [readBasicLines.eq_def]
      simp [closed]
    · rw [closeLines_of_ne quote] at closed
      cases closed

theorem escape_ne_quote {c : Char} (quote : c ≠ '"') :
    ∃ first more, escape c = first :: more ∧ first ≠ '"' := by
  rcases escape_cases c with ⟨letter, written, -⟩ | ⟨a, b, written, -⟩ | ⟨written, -⟩
  · exact ⟨_, _, written, by decide⟩
  · exact ⟨_, _, written, by decide⟩
  · exact ⟨_, _, written, quote⟩

/-- No more quotes stand side by side than may. -/
theorem quotes_escapeAll {run : Nat} (le : run ≤ 2) (text : List Char) :
    ((escapeAll true 2 run text).takeWhile (· == '"')).length + run ≤ 2 := by
  induction text generalizing run with
  | nil => simpa [escapeAll] using le
  | cons c text ih =>
    rw [escapeAll]
    by_cases quote : c = '"'
    · rw [if_pos quote]
      by_cases more : run < 2
      · rw [if_pos more, List.takeWhile_cons_of_pos rfl, List.length_cons]
        have := ih (show run + 1 ≤ 2 by omega)
        omega
      · rw [if_neg more, List.takeWhile_cons_of_neg (by decide)]
        simpa using le
    · rw [if_neg quote]
      split
      · simpa using le
      · obtain ⟨first, others, written, other⟩ := escape_ne_quote quote
        rw [written, List.cons_append, List.takeWhile_cons_of_neg (by simpa using other)]
        simpa using le

/-- Where only quotes were written, the text is these quotes. -/
theorem escapeAll_quotes {run : Nat} {text : List Char}
    (quotes : (escapeAll true 2 run text).all (· == '"') = true) :
    escapeAll true 2 run text = text := by
  induction text generalizing run with
  | nil => rfl
  | cons c text ih =>
    rw [escapeAll] at quotes ⊢
    by_cases quote : c = '"'
    · rw [if_pos quote] at quotes ⊢
      by_cases more : run < 2
      · rw [if_pos more] at quotes ⊢
        rw [ih (by simpa using quotes), quote]
      · rw [if_neg more] at quotes
        simp at quotes
    · rw [if_neg quote] at quotes
      split at quotes
      · simp at quotes
      · obtain ⟨first, others, written, other⟩ := escape_ne_quote quote
        rw [written] at quotes
        simp [other] at quotes

/-- A text with escapes on several lines is read up to the three quotes that close it. -/
theorem readBasicLines_escapeAll {rest : List Char} (next : rest.head? ≠ some '"') {run : Nat}
    (le : run ≤ 2) (text : List Char) :
    readBasicLines false false (escapeAll true 2 run text ++ '"' :: '"' :: '"' :: rest) =
      some (text, rest) := by
  induction text generalizing run with
  | nil =>
    have closing : closeLines '"' ('"' :: '"' :: '"' :: rest) = some ([], rest) :=
      closeLines_append [] (Nat.zero_le 2) next
    rw [escapeAll, List.nil_append]
    exact readBasicLines_closed closing
  | cons c text ih =>
    have few := quotes_escapeAll le (c :: text)
    have closing := closeLines_append (escapeAll true 2 run (c :: text)) (by omega) next
    by_cases quotes : (escapeAll true 2 run (c :: text)).all (· == '"') = true
    · rw [if_pos quotes, escapeAll_quotes quotes] at closing
      rw [escapeAll_quotes quotes]
      exact readBasicLines_closed closing
    · rw [if_neg quotes] at closing
      rw [escapeAll] at closing ⊢
      by_cases quote : c = '"'
      · subst quote
        rw [if_pos rfl] at closing ⊢
        by_cases more : run < 2
        · rw [if_pos more] at closing ⊢
          rw [List.cons_append] at closing ⊢
          rw [readBasicLines_plain _ closing (by decide) (by decide), ih (by omega)]
          rfl
        · rw [if_neg more, List.cons_append, List.cons_append, readBasicLines_letter _ rfl,
            ih (by omega)]
          rfl
      · rw [if_neg quote]
        split
        · next lineFeed =>
          obtain rfl : c = '\n' := by simpa using lineFeed
          rw [List.cons_append, readBasicLines_plain _ (closeLines_of_ne quote) (by decide)
            (by decide), ih (by omega)]
          rfl
        · rw [List.append_assoc, readBasicLines_escape c _ quote, ih (by omega)]
          rfl

theorem takeWhile_le_longestRun (quote : Char) (run : Nat) (text : List Char) :
    (text.takeWhile (· == quote)).length + run ≤ longestRun quote run text := by
  induction text generalizing run with
  | nil => simp [longestRun]
  | cons c text ih =>
    rw [longestRun]
    by_cases same : c = quote
    · rw [if_pos same, List.takeWhile_cons_of_pos (by simpa using same), List.length_cons]
      have := ih (run + 1)
      omega
    · rw [if_neg same, List.takeWhile_cons_of_neg (by simpa using same), List.length_nil]
      omega

theorem longestRun_mono (quote : Char) {run more : Nat} (le : run ≤ more) (text : List Char) :
    longestRun quote run text ≤ longestRun quote more text := by
  induction text generalizing run more with
  | nil => exact le
  | cons c text ih =>
    rw [longestRun, longestRun]
    split
    · exact ih (by omega)
    · omega

theorem longestRun_tail_le (quote c : Char) (text : List Char) :
    longestRun quote 0 text ≤ longestRun quote 0 (c :: text) := by
  rw [longestRun]
  split
  · exact longestRun_mono quote (by omega) text
  · omega

/-- A text without escapes on several lines is read up to the three quotes that close it. -/
theorem readLiteralLines_append {text rest : List Char} (next : rest.head? ≠ some '\'')
    (short : longestRun '\'' 0 text ≤ 2) (control : ∀ c ∈ text, isControl c = false) :
    readLiteralLines (text ++ '\'' :: '\'' :: '\'' :: rest) = some (text, rest) := by
  induction text with
  | nil =>
    rw [List.nil_append, readLiteralLines]
    · have closing : closeLines '\'' ('\'' :: '\'' :: '\'' :: rest) = some ([], rest) :=
        closeLines_append [] (Nat.zero_le 2) next
      rw [closing]
    · nofun
  | cons c text ih =>
    have few := takeWhile_le_longestRun '\'' 0 (c :: text)
    have closing := closeLines_append (c :: text) (by omega) next
    have carriage : c ≠ '\r' := by
      rintro rfl
      cases control '\r' List.mem_cons_self
    rw [List.cons_append] at closing ⊢
    rw [readLiteralLines, closing]
    · by_cases quotes : (c :: text).all (· == '\'') = true
      · rw [if_pos quotes]
      · rw [if_neg quotes, control c List.mem_cons_self,
          ih (Nat.le_trans (longestRun_tail_le _ _ _) short) fun d mem =>
            control d (List.mem_cons_of_mem _ mem)]
        rfl
    · exact fun _ same _ => carriage same

/-! ### The first line -/

theorem dropFirstLine_of_head {chars : List Char}
    (first : ∀ c ∈ chars.head?, c ≠ '\n' ∧ c ≠ '\r') : dropFirstLine chars = chars := by
  unfold dropFirstLine
  split
  · exact absurd rfl (first '\n' rfl).1
  · exact absurd rfl (first '\r' rfl).2
  · rfl

theorem escape_ne_lineEnd {c : Char} (lineFeed : c ≠ '\n') :
    ∃ first more, escape c = first :: more ∧ first ≠ '\n' ∧ first ≠ '\r' := by
  rcases escape_cases c with ⟨letter, written, -⟩ | ⟨a, b, written, -⟩ | ⟨written, -, -, control⟩
  · exact ⟨_, _, written, by decide, by decide⟩
  · exact ⟨_, _, written, by decide, by decide⟩
  · refine ⟨_, _, written, lineFeed, ?_⟩
    rintro rfl
    cases control

theorem dropFirstLine_escapeAll {text : List Char} (lineFeed : '\n' ∉ text) (rest : List Char) :
    dropFirstLine (escapeAll true 2 0 text ++ '"' :: rest) =
      escapeAll true 2 0 text ++ '"' :: rest := by
  apply dropFirstLine_of_head
  cases text with
  | nil => simp [escapeAll]
  | cons c text =>
    have other : c ≠ '\n' := fun same => lineFeed (same ▸ List.mem_cons_self)
    rw [escapeAll]
    by_cases quote : c = '"'
    · simp [quote]
    · obtain ⟨first, more, written, ends⟩ := escape_ne_lineEnd other
      simpa [quote, other, written] using ends

/-! ## Texts of any style -/

theorem readText_basic {chars : List Char} (lines : ∀ more, chars ≠ '"' :: '"' :: more) :
    readText ('"' :: chars) = readBasic chars := by
  rw [readText]
  exact lines

theorem readText_literal {chars : List Char} (lines : ∀ more, chars ≠ '\'' :: '\'' :: more) :
    readText ('\'' :: chars) = readLiteral chars := by
  rw [readText]
  exact lines

theorem readText_writeText_basic (text : List Char) {rest : List Char}
    (next : rest.head? ≠ some '"') :
    readText (writeText .basic text ++ rest) = some (text, rest) := by
  have written : writeText .basic text ++ rest =
      '"' :: (escapeAll false 0 0 text ++ '"' :: rest) := by simp [writeText]
  rw [written, readText_basic, readBasic_escapeAll]
  intro more lines
  cases text with
  | nil =>
    cases lines
    exact next rfl
  | cons c text =>
    rw [escapeAll] at lines
    by_cases quote : c = '"'
    · simp [quote] at lines
    · obtain ⟨first, others, written, other⟩ := escape_ne_quote quote
      simp [quote, written, other] at lines

theorem readText_writeText_literal {text : List Char} (rest : List Char) (inhabited : text ≠ [])
    (quote : '\'' ∉ text) (lineFeed : '\n' ∉ text) (control : ∀ c ∈ text, isControl c = false) :
    readText (writeText .literal text ++ rest) = some (text, rest) := by
  have written : writeText .literal text ++ rest = '\'' :: (text ++ '\'' :: rest) := by
    simp [writeText]
  rw [written, readText_literal, readLiteral_append rest quote lineFeed control]
  intro more lines
  cases text with
  | nil => exact inhabited rfl
  | cons c text =>
    obtain ⟨rfl, -⟩ := List.cons.inj lines
    exact quote List.mem_cons_self

theorem readText_writeText_basicLines (text : List Char) {rest : List Char}
    (next : rest.head? ≠ some '"') :
    readText (writeText .basicLines text ++ rest) = some (text, rest) := by
  by_cases lineFeed : '\n' ∈ text
  · have written : writeText .basicLines text ++ rest =
        '"' :: '"' :: '"' :: '\n' :: (escapeAll true 2 0 text ++ '"' :: '"' :: '"' :: rest) := by
      simp [writeText, lineFeed]
    rw [written, readText, dropFirstLine, readBasicLines_escapeAll next (by omega)]
  · have written : writeText .basicLines text ++ rest =
        '"' :: '"' :: '"' :: (escapeAll true 2 0 text ++ '"' :: '"' :: '"' :: rest) := by
      simp [writeText, lineFeed]
    rw [written, readText, dropFirstLine_escapeAll lineFeed,
      readBasicLines_escapeAll next (by omega)]

theorem readText_writeText_literalLines {text rest : List Char} (next : rest.head? ≠ some '\'')
    (short : longestRun '\'' 0 text ≤ 2) (control : ∀ c ∈ text, isControl c = false) :
    readText (writeText .literalLines text ++ rest) = some (text, rest) := by
  by_cases lineFeed : '\n' ∈ text
  · have written : writeText .literalLines text ++ rest =
        '\'' :: '\'' :: '\'' :: '\n' :: (text ++ '\'' :: '\'' :: '\'' :: rest) := by
      simp [writeText, lineFeed]
    rw [written, readText, dropFirstLine, readLiteralLines_append next short control]
  · have written : writeText .literalLines text ++ rest =
        '\'' :: '\'' :: '\'' :: (text ++ '\'' :: '\'' :: '\'' :: rest) := by
      simp [writeText, lineFeed]
    rw [written, readText, dropFirstLine_of_head, readLiteralLines_append next short control]
    intro c first
    cases text with
    | nil =>
      cases first
      decide
    | cons d text =>
      cases first
      refine ⟨fun same => lineFeed (same ▸ List.mem_cons_self), ?_⟩
      rintro rfl
      cases control '\r' List.mem_cons_self

/-- **A text is read back in the style chosen for it**, if no quote follows. -/
theorem readText_writeText (text : List Char) {rest : List Char}
    (double : rest.head? ≠ some '"') (single : rest.head? ≠ some '\'') :
    readText (writeText (Style.forText text) text ++ rest) = some (text, rest) := by
  unfold Style.forText
  dsimp only
  split
  · exact readText_writeText_basic text double
  · next notBasic =>
    split
    · next plain =>
      simp only [Bool.and_eq_true, Bool.not_eq_true', List.any_eq_false, List.contains_eq_mem,
        decide_eq_false_iff_not, Bool.not_eq_true] at plain
      refine readText_writeText_literal rest ?_ plain.2 plain.1.2 plain.1.1
      rintro rfl
      exact notBasic rfl
    · split
      · exact readText_writeText_basicLines text double
      · split
        · next short =>
          simp only [Bool.and_eq_true, Bool.not_eq_true', List.any_eq_false, decide_eq_true_eq,
            Bool.not_eq_true] at short
          exact readText_writeText_literalLines single short.2 short.1
        · split
          · exact readText_writeText_basicLines text double
          · exact readText_writeText_basic text double

/-! ## Keys -/

theorem takeWhile_append_stops {p : Char → Bool} {text rest : List Char}
    (all : ∀ c ∈ text, p c = true) (next : ∀ c ∈ rest.head?, p c = false) :
    (text ++ rest).takeWhile p = text ∧ (text ++ rest).dropWhile p = rest := by
  cases rest with
  | nil => simpa using all
  | cons c rest =>
    have stops : ¬ p c = true := by simp [next c rfl]
    rw [List.takeWhile_append_of_pos all, List.dropWhile_append_of_pos all,
      List.takeWhile_cons_of_neg stops, List.dropWhile_cons_of_neg stops]
    simp

theorem readKey_bare {text : List Char} (rest : List Char) (inhabited : text ≠ [])
    (bare : ∀ c ∈ text, isBare c = true) (next : ∀ c ∈ rest.head?, isBare c = false) :
    readKey (text ++ rest) = some (String.ofList text, rest) := by
  obtain ⟨takes, drops⟩ := takeWhile_append_stops bare next
  cases text with
  | nil => exact absurd rfl inhabited
  | cons c text =>
    rw [List.cons_append] at takes drops ⊢
    rw [readKey]
    · rw [takes, drops]
      rfl
    · rintro _ ⟨⟩
      cases bare '"' List.mem_cons_self
    · rintro _ ⟨⟩
      cases bare '\'' List.mem_cons_self

/-- **A key is read back**, if nothing follows that could belong to it. -/
theorem readKey_writeKey (key : String) {rest : List Char}
    (next : ∀ c ∈ rest.head?, isBare c = false) :
    readKey (writeKey key ++ rest) = some (key, rest) := by
  have basic : readKey (writeText .basic key.toList ++ rest) = some (key, rest) := by
    have written : writeText .basic key.toList ++ rest =
        '"' :: (escapeAll false 0 0 key.toList ++ '"' :: rest) := by simp [writeText]
    rw [written, readKey, readBasic_escapeAll]
    simp
  unfold writeKey
  dsimp only
  split
  · next bare =>
    simp only [Bool.and_eq_true, Bool.not_eq_true', List.isEmpty_eq_false_iff,
      List.all_eq_true] at bare
    rw [readKey_bare rest bare.1 bare.2 next, String.ofList_toList]
  · unfold Style.forKey
    dsimp only
    split
    · exact basic
    · split
      · next plain =>
        simp only [Bool.and_eq_true, Bool.not_eq_true', Bool.or_eq_false_iff, List.any_eq_false,
          List.contains_eq_mem, decide_eq_false_iff_not, Bool.not_eq_true] at plain
        have written : writeText .literal key.toList ++ rest =
            '\'' :: (key.toList ++ '\'' :: rest) := by simp [writeText]
        rw [written, readKey, readLiteral_append rest plain.2 plain.1.2 plain.1.1]
        simp
      · exact basic

end BuildTargets.Toml
