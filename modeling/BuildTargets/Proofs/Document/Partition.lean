import BuildTargets.Proofs.Document.Bytes

/-!
# Lines as parts of a text

The lines of a document with what ends them are its text, one behind the other. A byte lies on the
last line that starts at it or before it, so there is a line for every offset.
-/

namespace BuildTargets

open Text

/-- Lines one behind the other, of which the first has the given number and offset: without what
ends them they hold no line feed, they end in a line feed or a carriage return and a line feed, and
the last one at most in a carriage return. -/
inductive Tiles : Nat → Nat → List Line → List Char → Prop
  | last {number offset : Nat} {text ending : List Char} (feed : '\n' ∉ text)
      (ends : ending = [] ∨ ending = ['\r']) :
      Tiles number offset [⟨number, String.ofList text, offset, offset + width text⟩]
        (text ++ ending)
  | line {number offset : Nat} {text ending rest : List Char} {lines : List Line}
      (feed : '\n' ∉ text) (ends : ending = ['\n'] ∨ ending = ['\r', '\n'])
      (later : Tiles (number + 1) (offset + width (text ++ ending)) lines rest) :
      Tiles number offset (⟨number, String.ofList text, offset, offset + width text⟩ :: lines)
        (text ++ ending ++ rest)

section

variable {raw : List Char} {below : List (List Char)}

theorem tiles_linesFrom (number offset : Nat) (feeds : ∀ line ∈ raw :: below, '\n' ∉ line) :
    Tiles number offset (linesFrom number offset (raw :: below)) (raw ++ aheadLine below) := by
  induction below generalizing number offset raw with
  | nil =>
    have feed : '\n' ∉ dropReturn raw := fun mem =>
      feeds raw List.mem_cons_self (mem_of_mem_dropReturn mem)
    obtain ⟨ending, split, ends⟩ := line_eq_dropReturn_append raw
    have tile := @Tiles.last number offset _ _ feed ends
    rw [← split] at tile
    rw [aheadLine_nil, List.append_nil]
    exact tile
  | cons next below ih =>
    rw [List.forall_mem_cons] at feeds
    have feed : '\n' ∉ dropReturn raw := fun mem => feeds.1 (mem_of_mem_dropReturn mem)
    obtain ⟨ending, split, ends⟩ := line_eq_dropReturn_append raw
    have ends' : ending ++ ['\n'] = ['\n'] ∨ ending ++ ['\n'] = ['\r', '\n'] :=
      ends.imp (congrArg (· ++ ['\n'])) (congrArg (· ++ ['\n']))
    have whole : dropReturn raw ++ (ending ++ ['\n']) = raw ++ ['\n'] := by
      rw [← List.append_assoc, ← split]
    have behind : offset + width raw + 1 = offset + width (raw ++ ['\n']) := by
      rw [width_append]
      rfl
    have later := ih (number + 1) (offset + width raw + 1) feeds.2
    have tile := @Tiles.line number offset _ _ _ _ feed ends' (by rw [whole, ← behind]; exact later)
    rw [whole, List.append_assoc] at tile
    exact tile

theorem ascending_linesFrom (number offset : Nat) (raws : List (List Char)) :
    (∀ line ∈ linesFrom number offset raws, offset ≤ line.start) ∧
      (linesFrom number offset raws).Pairwise fun a b => a.start < b.start := by
  induction raws generalizing number offset with
  | nil => exact ⟨List.forall_mem_nil _, .nil⟩
  | cons raw raws ih =>
    obtain ⟨least, ascending⟩ := ih (number + 1) (offset + width raw + 1)
    rw [linesFrom]
    refine ⟨List.forall_mem_cons.2 ⟨Nat.le_refl _, fun line mem => ?_⟩,
      List.pairwise_cons.2 ⟨fun line mem => ?_, ascending⟩⟩
    · have := least line mem
      omega
    · have := least line mem
      dsimp only
      omega

theorem count_bytesOf_lines (feeds : ∀ line ∈ raw :: below, '\n' ∉ line) :
    (bytesOf (raw ++ aheadLine below)).count 10 = below.length := by
  induction below generalizing raw with
  | nil =>
    rw [aheadLine_nil, List.append_nil, List.length_nil, List.count_eq_zero]
    exact lineFeed_not_mem_bytesOf (feeds raw List.mem_cons_self)
  | cons next below ih =>
    rw [List.forall_mem_cons] at feeds
    rw [bytesOf_append, List.count_append, List.count_eq_zero.2 (lineFeed_not_mem_bytesOf feeds.1),
      aheadLine_cons, bytesOf_cons, List.count_append, ih feeds.2, List.length_cons,
      show (String.utf8EncodeChar '\n').count 10 = 1 from rfl]
    omega

/-- A line starts at a byte or before it if as many line feeds are before the byte as there are
lines above. -/
theorem start_le_iff_linesFrom (number start : Nat) (feeds : ∀ line ∈ raw :: below, '\n' ∉ line)
    (count index : Nat) {line : Line}
    (held : (linesFrom number start (raw :: below))[index]? = some line) :
    line.start ≤ start + min count (width (raw ++ aheadLine below)) ↔
      index ≤ ((bytesOf (raw ++ aheadLine below)).take count).count 10 := by
  induction below generalizing number start raw count index with
  | nil =>
    cases index with
    | zero =>
      cases held
      exact iff_of_true (Nat.le_add_right _ _) (Nat.zero_le _)
    | succ index => cases held
  | cons next below ih =>
    rw [List.forall_mem_cons] at feeds
    cases index with
    | zero =>
      cases held
      exact iff_of_true (Nat.le_add_right _ _) (Nat.zero_le _)
    | succ index =>
      have later : (linesFrom (number + 1) (start + width raw + 1) (next :: below))[index]? =
        some line := held
      have least := (ascending_linesFrom _ _ _).1 line (List.mem_of_getElem? later)
      rw [aheadLine_cons, count_take_append feeds.1]
      rcases Nat.lt_or_ge (width raw) count with further | within
      · obtain ⟨more, rfl⟩ : ∃ more, count = width raw + more + 1 :=
          ⟨count - width raw - 1, by omega⟩
        have rest := ih (number + 1) (start + width raw + 1) feeds.2 more index later
        have size : '\n'.utf8Size = 1 := rfl
        rw [show width raw + more + 1 - width raw = more + 1 by omega, count_take_lineFeed,
          Nat.add_le_add_iff_right, ← rest, width_append, width_cons, size]
        omega
      · rw [Nat.sub_eq_zero_of_le within, List.take_zero, List.count_nil]
        omega

end

namespace Document

variable {document : Document} {number : Nat} {line : Line}

theorem exists_lines (document : Document) : ∃ raw below, split '\n' document.chars = raw :: below ∧
    document.chars = raw ++ aheadLine below ∧ ∀ line ∈ raw :: below, '\n' ∉ line := by
  obtain ⟨raw, below, lines⟩ := List.exists_cons_of_ne_nil (split_ne_nil '\n' document.chars)
  have text := joinWith_split '\n' document.chars
  rw [lines, joinWith_lines] at text
  exact ⟨raw, below, lines, text.symm, fun line mem => not_mem_of_mem_split (lines ▸ mem)⟩

theorem tiles_lines (document : Document) : Tiles 0 0 document.lines document.chars := by
  obtain ⟨raw, below, lines, text, feeds⟩ := document.exists_lines
  rw [Document.lines, linesOf, lines, text]
  exact tiles_linesFrom 0 0 feeds

theorem lineNumber_lt (document : Document) (offset : Nat) :
    document.lineNumber offset < document.lines.length := by
  obtain ⟨raw, below, lines, text, feeds⟩ := document.exists_lines
  have most := ((document.bytes.take_sublist offset).count_le 10)
  rw [bytes_eq, text, count_bytesOf_lines feeds, ← text, ← bytes_eq, ← lineNumber_eq_count] at most
  rw [Document.lines, linesOf, length_linesFrom, lines, List.length_cons]
  omega

/-- The lines that start at a byte or before it are those up to the line of the byte. -/
theorem start_le_iff (held : document.line? number = some line) (offset : Nat) :
    line.start ≤ min offset document.bytes.length ↔ number ≤ document.lineNumber offset := by
  obtain ⟨raw, below, lines, text, feeds⟩ := document.exists_lines
  rw [line?, Document.lines, linesOf, lines] at held
  have below_iff := start_le_iff_linesFrom 0 0 feeds offset number held
  rwa [Nat.zero_add, ← text, ← length_bytes, ← bytes_eq, ← lineNumber_eq_count] at below_iff

theorem line?_lineNumber (document : Document) (offset : Nat) :
    document.line? (document.lineNumber offset) = some (document.lineAt offset) := by
  obtain ⟨line, held⟩ : ∃ line, document.line? (document.lineNumber offset) = some line :=
    ⟨_, List.getElem?_eq_getElem (document.lineNumber_lt offset)⟩
  rw [lineAt, held]
  rfl

theorem exists_of_line? (held : document.line? number = some line) : ∃ above raw below,
    split '\n' document.chars = above.reverse ++ raw :: below ∧ above.length = number ∧
      line = lineBelow above raw := by
  have short : number < (split '\n' document.chars).length := by
    rw [← length_linesFrom 0 0]
    exact (List.getElem?_eq_some_iff.1 held).1
  have lines : split '\n' document.chars =
      ((split '\n' document.chars).take number).reverse.reverse ++
        (split '\n' document.chars)[number] :: (split '\n' document.chars).drop (number + 1) := by
    rw [List.reverse_reverse, List.getElem_cons_drop, List.take_append_drop]
  have length : ((split '\n' document.chars).take number).reverse.length = number := by
    rw [List.length_reverse, List.length_take, Nat.min_eq_left (Nat.le_of_lt short)]
  refine ⟨_, _, _, lines, length, ?_⟩
  have found := line?_of_lines lines
  rw [length, held] at found
  exact Option.some.inj found

theorem chars_of_lines {above below : List (List Char)} {raw : List Char}
    (lines : split '\n' document.chars = above.reverse ++ raw :: below) :
    document.chars = (behindLine above).reverse ++ (raw ++ aheadLine below) := by
  rw [← joinWith_above, ← lines, joinWith_split]

/-- The line is a stretch of the text between two characters, without a line feed. -/
structure Holds (document : Document) (line : Line) : Prop where
  slice : ∃ before behind, document.chars = before ++ (line.text.toList ++ behind) ∧
    line.start = width before ∧ line.stop = line.start + width line.text.toList
  feed : '\n' ∉ line.text.toList

theorem holds_of_line? (held : document.line? number = some line) : document.Holds line := by
  obtain ⟨above, raw, below, lines, -, rfl⟩ := exists_of_line? held
  have feed : '\n' ∉ raw := not_mem_of_mem_split (by rw [lines]; simp)
  obtain ⟨ending, split, -⟩ := line_eq_dropReturn_append raw
  have text := chars_of_lines lines
  rw [split, List.append_assoc] at text
  refine ⟨⟨(behindLine above).reverse, ending ++ aheadLine below, ?_, ?_, ?_⟩, ?_⟩
  · rw [lineBelow, String.toList_ofList]
    exact text
  · rw [width_reverse, width_behindLine]
    rfl
  · rw [lineBelow, String.toList_ofList]
  · rw [lineBelow, String.toList_ofList]
    exact fun mem => feed (mem_of_mem_dropReturn mem)

end Document

end BuildTargets
