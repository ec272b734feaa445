import BuildTargets.Proofs.Grammar.HeaderMatch

/-!
# Scanning a text for headers

The scanner goes on behind the colon of each match, accepted or not, so its next match is looked
for from the start of the line below. Line by line, it finds the headers of the rule that its
pattern reads.
-/

namespace BuildTargets

open Text Pattern

namespace Grammar

variable {body : Pattern} {rule : HeaderRule} {limit : Nat} {above below : List (List Char)}
  {line name rest : List Char}

/-! ## The scanner -/

namespace Scanner

/-- The next search of the scanner begins at a place between two characters. -/
structure Sound (scanner : Scanner) : Prop where
  next_eq : scanner.next = scanner.cursor.offset
  length_eq : scanner.length = width scanner.cursor.text

theorem cursor_start (text : List Char) : (start text).cursor = Cursor.start text :=
  Cursor.seek_eq rfl (Nat.le_refl _)

theorem sound_start (text : List Char) : (start text).Sound := by
  refine ⟨?_, ?_⟩ <;> rw [cursor_start] <;> rfl

variable {scanner : Scanner} {found : Found}

theorem Sound.cursor_after (h : scanner.Sound)
    (same : found.whole.stop.text = scanner.cursor.text)
    (later : scanner.cursor.offset < found.whole.stop.offset) :
    (scanner.after found).cursor = found.whole.stop := by
  show scanner.cursor.seek (max found.whole.stop.offset (scanner.next + 1)) = found.whole.stop
  rw [h.next_eq, Nat.max_eq_left later]
  exact Cursor.seek_eq same (Nat.le_of_lt later)

theorem Sound.after (h : scanner.Sound) (same : found.whole.stop.text = scanner.cursor.text)
    (later : scanner.cursor.offset < found.whole.stop.offset) : (scanner.after found).Sound := by
  refine ⟨?_, ?_⟩
  · rw [h.cursor_after same later]
    show max found.whole.stop.offset (scanner.next + 1) = found.whole.stop.offset
    rw [h.next_eq, Nat.max_eq_left later]
  · rw [h.cursor_after same later, same]
    exact h.length_eq

theorem Sound.next_le (h : scanner.Sound) : scanner.next ≤ scanner.length := by
  rw [h.next_eq, h.length_eq, Cursor.text, width_append, width_reverse, ← Cursor.offset_eq]
  omega

end Scanner

theorem remaining_of_next? (grammar : Grammar) (scanner : Scanner) :
    grammar.remaining scanner =
      match grammar.next? scanner with
      | none => []
      | some (header, after) => header :: grammar.remaining after := by
  rw [remaining]
  split <;> simp_all

theorem remaining_eq (grammar : Grammar) {scanner : Scanner} (h : scanner.Sound) :
    grammar.remaining scanner =
      match grammar.header.find? scanner.cursor with
      | none => []
      | some found => (accept? found).toList ++ grammar.remaining (scanner.after found) := by
  rw [remaining_of_next?, next?, if_pos h.next_le]
  cases grammar.header.find? scanner.cursor with
  | none => rfl
  | some found =>
    dsimp only
    cases accept? found with
    | none => exact (remaining_of_next? grammar (scanner.after found)).symm
    | some header => rfl

/-! ## Line by line -/

/-- The scanner has these lines to read: its next match is the first one at their starts. -/
structure Scanner.Faces (scanner : Scanner) (body : Pattern) (above todo : List (List Char)) :
    Prop where
  sound : scanner.Sound
  find_eq : (lineHeader body).find? scanner.cursor =
    searchLines (lineHeader body) (scanner.cursor.ahead.length + 1) above todo
  place : ∀ line below, todo = line :: below →
    scanner.cursor.text = (lineAt above line below).text ∧
      scanner.cursor.offset ≤ lineOffset above ∧
      (line ++ aheadLine below).length ≤ scanner.cursor.ahead.length

theorem Scanner.faces_start (body : Pattern) (text : List Char) :
    (Scanner.start text).Faces body [] (split '\n' text) := by
  obtain ⟨line, below, lines⟩ := List.exists_cons_of_ne_nil (split_ne_nil '\n' text)
  have whole : text = line ++ aheadLine below := by
    rw [← joinWith_lines, ← lines, joinWith_split]
  have cursor := Scanner.cursor_start text
  rw [Cursor.start_eq_between] at cursor
  rw [lines]
  refine ⟨Scanner.sound_start text, ?_, ?_⟩
  · rw [cursor, whole]
    rfl
  · rintro _ _ ⟨⟩
    rw [cursor, whole]
    exact ⟨rfl, Nat.le_refl _, Nat.le_refl _⟩

variable {scanner : Scanner}

theorem Scanner.Faces.skip (h : scanner.Faces body above (line :: below)) (feed : '\n' ∉ line)
    (misses : ∀ {limit}, (line ++ aheadLine below).length ≤ limit →
      matchAt? (lineHeader body) limit (lineAt above line below) = none) :
    scanner.Faces body (line :: above) below := by
  obtain ⟨same, before, short⟩ := h.place line below rfl
  have none := misses (Nat.le_succ_of_le short)
  refine ⟨h.sound, ?_, ?_⟩
  · rw [h.find_eq]
    exact findFrom?_line (w := []) feed none
  · rintro next below rfl
    refine ⟨?_, ?_, ?_⟩
    · rw [same]
      simp [lineAt, Cursor.text]
    · rw [lineOffset_cons]
      omega
    · rw [aheadLine_cons, List.length_append, List.length_cons] at short
      omega

theorem Scanner.Sound.faces_after (h : scanner.Sound)
    (same : scanner.cursor.text = (lineAt above line below).text)
    (before : scanner.cursor.offset ≤ lineOffset above) (feed : '\n' ∉ line)
    {lead front : List Char} (fronted : front ≠ [])
    (split : line = lead ++ (name ++ (front ++ rest))) (start : Cursor)
    (groups : List (String × Span)) :
    (scanner.after (headerFound start groups above lead name front rest below)).Faces body
      (line :: above) below := by
  subst split
  have taken : (headerFound start groups above lead name front rest below).whole.stop =
      .between ((lead ++ (name ++ front)).reverse ++ behindLine above)
        (rest ++ aheadLine below) := by
    simp [headerFound]
  generalize headerFound start groups above lead name front rest below = found at taken
  have later : scanner.cursor.offset < found.whole.stop.offset := by
    have wide : width front ≠ 0 := fun zero => fronted (Cursor.width_eq_zero zero)
    rw [taken, Cursor.offset_between, width_append, width_reverse, width_append, width_append,
      width_behindLine]
    omega
  have same' : found.whole.stop.text = scanner.cursor.text := by
    rw [taken, same]
    simp [lineAt, Cursor.text]
  have cursor := h.cursor_after same' later
  rw [taken] at cursor
  refine ⟨h.after same' later, ?_, ?_⟩
  · have begun : '\n' ∉ lead ++ (name ++ front) := by simp_all
    have whole : lead ++ (name ++ (front ++ rest)) = lead ++ (name ++ front) ++ rest := by simp
    rw [whole] at feed ⊢
    rw [cursor, find?]
    exact findFrom?_line feed (matchAt?_inLine (by simp [fronted]) begun above _)
  · rintro next below rfl
    rw [cursor]
    refine ⟨?_, ?_, ?_⟩
    · simp [lineAt, Cursor.text]
    · rw [Cursor.offset_between, width_append, width_reverse, width_behindLine, lineOffset_cons]
      simp only [width_append]
      omega
    · simp
      omega

/-- The first of some lines is no header if the line above it is a comment: the match would have
begun there. -/
def Fresh (rule : HeaderRule) (above todo : List (List Char)) : Prop :=
  ∀ note line, above.head? = some note → todo.head? = some line → commentText? note ≠ none →
    rule.parts? line = none

theorem fresh_below (rule : HeaderRule) (above below : List (List Char))
    (plain : commentText? line = none) : Fresh rule (line :: above) below := by
  rintro note next ⟨⟩ - comment
  exact absurd plain comment

theorem Fresh.commentAbove? (h : Fresh rule above (line :: below))
    (found : rule.parts? line = some (name, rest)) : commentAbove? above = none := by
  cases above with
  | nil => rfl
  | cons note above =>
    have plain : commentText? note = none := by
      by_cases comment : commentText? note = none
      · exact comment
      · have misses := h note line rfl rfl comment
        rw [found] at misses
        cases misses
    rw [BuildTargets.commentAbove?, plain, ite_self]

/-- From a header line the scanner takes the header and gets to the line below. -/
theorem Reads.step_header {grammar : Grammar} (header : grammar.header = lineHeader body)
    (reads : Reads body rule) (h : scanner.Faces body above (line :: below)) (feed : '\n' ∉ line)
    (found : rule.parts? line = some (name, rest)) (plain : commentAbove? above = none) :
    ∃ after : Scanner, after.Faces body (line :: above) below ∧
      grammar.remaining scanner =
        (rule.header? above line).toList ++ grammar.remaining after := by
  obtain ⟨same, before, short⟩ := h.place line below rfl
  rw [List.length_append] at short
  obtain ⟨lead, front, fronted, split, matched⟩ :=
    @Reads.matchAt?_header _ _ (scanner.cursor.ahead.length + 1) above below _ _ _ reads found feed
      (by omega)
  refine ⟨_, h.sound.faces_after same before feed fronted split (lineAt above line below) [], ?_⟩
  have leadless : '\n' ∉ lead := fun hl => feed (by rw [split]; exact List.mem_append_left _ hl)
  rw [remaining_eq grammar h.sound, header, h.find_eq, searchLines, findFrom?_of_some matched]
  dsimp only
  rw [accept?_header leadless found plain]

/-- From a comment line above a header line it takes the header and gets to the line below. -/
theorem Reads.step_comment {grammar : Grammar} (header : grammar.header = lineHeader body)
    (reads : Reads body rule) {note text : List Char}
    (h : scanner.Faces body above (note :: line :: below)) (feed : '\n' ∉ note)
    (feed' : '\n' ∉ line) (comment : commentText? note = some text)
    (found : rule.parts? line = some (name, rest)) :
    ∃ after : Scanner, after.Faces body (line :: note :: above) below ∧
      grammar.remaining scanner =
        (rule.header? (note :: above) line).toList ++ grammar.remaining after := by
  obtain ⟨same, before, short⟩ := h.place note (line :: below) rfl
  have long := Nat.le_succ_of_le short
  obtain ⟨lead, front, span, fronted, split, text_eq, matched⟩ :=
    @Reads.matchAt?_comment _ _ _ above below _ _ _ reads _ _ comment found feed long
  have same' : scanner.cursor.text = (lineAt (note :: above) line below).text := by
    rw [same]
    simp [lineAt, Cursor.text]
  have before' : scanner.cursor.offset ≤ lineOffset (note :: above) := by
    rw [lineOffset_cons]
    omega
  refine ⟨_, h.sound.faces_after same' before' feed' fronted split
    (lineAt above note (line :: below)) [(commentGroup, span)], ?_⟩
  have leadless : '\n' ∉ lead := fun hl => feed' (by rw [split]; exact List.mem_append_left _ hl)
  rw [remaining_eq grammar h.sound, header, h.find_eq, searchLines, findFrom?_of_some matched]
  dsimp only
  rw [accept?_comment leadless found comment text_eq]

theorem header?_of_parts?_none (misses : rule.parts? line = none) (above : List (List Char)) :
    rule.header? above line = none := by
  rw [HeaderRule.header?, misses]

theorem remaining_lines {grammar : Grammar} (header : grammar.header = lineHeader body)
    (reads : Reads body rule) (todo above : List (List Char)) (scanner : Scanner)
    (h : scanner.Faces body above todo) (feeds : ∀ line ∈ todo, '\n' ∉ line)
    (fresh : Fresh rule above todo) :
    grammar.remaining scanner = rule.headersBelow above todo := by
  match todo with
  | [] =>
    rw [remaining_eq grammar h.sound, header, h.find_eq]
    rfl
  | line :: below =>
    have feed := feeds line List.mem_cons_self
    have feeds' : ∀ line ∈ below, '\n' ∉ line := fun l hl => feeds l (List.mem_cons_of_mem line hl)
    rw [HeaderRule.headersBelow]
    cases found : rule.parts? line with
    | some parts =>
      obtain ⟨name, rest⟩ := parts
      obtain ⟨after, faces, taken⟩ :=
        reads.step_header header h feed found (fresh.commentAbove? found)
      have plain := commentText?_of_parts? found
      rw [taken, remaining_lines header reads below (line :: above) after faces feeds'
        (fresh_below rule above below plain)]
    | none =>
      rw [header?_of_parts?_none found, Option.toList_none, List.nil_append]
      by_cases commented : ∃ line' below', below = line' :: below' ∧ commentText? line ≠ none ∧
        rule.parts? line' ≠ none
      · obtain ⟨line', below', rfl, comment, found'⟩ := commented
        obtain ⟨text, comment⟩ := Option.ne_none_iff_exists'.1 comment
        obtain ⟨⟨name, rest⟩, found'⟩ := Option.ne_none_iff_exists'.1 found'
        obtain ⟨after, faces, taken⟩ := reads.step_comment header h feed
          (feeds' line' List.mem_cons_self) comment found'
        have plain := commentText?_of_parts? found'
        rw [HeaderRule.headersBelow, taken,
          remaining_lines header reads below' (line' :: line :: above) after faces
            (fun l hl => feeds' l (List.mem_cons_of_mem line' hl))
            (fresh_below rule (line :: above) below' plain)]
      · have next : ∀ line' below', below = line' :: below' → commentText? line ≠ none →
            rule.parts? line' = none := by
          intro line' below' eq comment
          by_cases misses : rule.parts? line' = none
          · exact misses
          · exact absurd ⟨line', below', eq, comment, misses⟩ commented
        refine remaining_lines header reads below (line :: above) scanner
          (h.skip feed fun long => reads.matchAt?_none found next feed long) feeds' ?_
        rintro note line' ⟨⟩ first comment
        obtain ⟨later, below_eq⟩ := List.head?_eq_some_iff.1 first
        exact next line' later below_eq comment
termination_by todo.length

theorem make_header : make.header = lineHeader (.seqs [targetName, .manyOf gap, .char ':']) := rfl

theorem just_header : just.header = lineHeader (.seqs [.optional (.char '@'), targetName,
    .optional (.seq (.someOf gap) (.manyOf parameterChar)), .char ':']) := rfl

theorem headers_eq {grammar : Grammar} (header : grammar.header = lineHeader body)
    (reads : Reads body rule) (text : String) : grammar.headers text = rule.headers text := by
  rw [HeaderRule.headers_eq_below]
  refine remaining_lines header reads _ [] _ (Scanner.faces_start body text.toList)
    (fun line hl => not_mem_of_mem_split hl) ?_
  rintro note line ⟨⟩

end Grammar

/-- Over every text, make and just find exactly the headers of their line rules. -/
theorem headers_follow_line_rules (text : String) :
    Grammar.make.headers text = makeRule.headers text ∧
      Grammar.just.headers text = justRule.headers text :=
  ⟨Grammar.headers_eq Grammar.make_header Grammar.reads_make text,
    Grammar.headers_eq Grammar.just_header Grammar.reads_just text⟩

example : justRule.headers "# run it\r\n@all x='1':\nv ::= 1\nb: \\\nc:" =
    [⟨"all", "run it", 0, 10⟩, ⟨"b", "", 30, 30⟩] := by
  decide

end BuildTargets
