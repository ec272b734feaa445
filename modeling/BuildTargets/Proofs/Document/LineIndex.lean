import BuildTargets.Proofs.Document.Partition

/-!
# The index of the lines of a document

To find the line of a byte it is enough to know where the lines start: an index holds the starts in
ascending order and looks a byte up by halving. On the way it takes one from offsets and reads at
places of the index and of the text. All of this is checked here, and for every text and every
offset the index goes through with it and answers as the document does.
-/

namespace BuildTargets

open Text

namespace Text

/-- Cuts a text before the character that begins at a byte, if there is such a place. -/
def cutAt? (offset : Nat) : List Char → Option (List Char × List Char)
  | [] => if offset = 0 then some ([], []) else none
  | c :: rest =>
    if offset = 0 then some ([], c :: rest)
    else if offset < c.utf8Size then none
    else (cutAt? (offset - c.utf8Size) rest).map fun (front, back) => (c :: front, back)

/-- The text from one byte to another, if both are between characters. -/
def slice? (text : List Char) (start stop : Nat) : Option (List Char) :=
  if start ≤ stop then do
    let (_, rest) ← cutAt? start text
    let (inside, _) ← cutAt? (stop - start) rest
    return inside
  else none

theorem cutAt?_width (front back : List Char) : cutAt? (width front) (front ++ back) =
    some (front, back) := by
  induction front with
  | nil => cases back <;> rfl
  | cons c front ih =>
    have := c.utf8Size_pos
    rw [List.cons_append, cutAt?, width_cons, if_neg (by omega), if_neg (by omega),
      Nat.add_sub_cancel_left, ih]
    rfl

theorem slice?_append (before inside behind : List Char) :
    slice? (before ++ (inside ++ behind)) (width before) (width before + width inside) =
      some inside := by
  rw [slice?, if_pos (Nat.le_add_right _ _), cutAt?_width, Nat.add_sub_cancel_left]
  simp only [Option.bind_eq_bind, Option.bind_some]
  rw [cutAt?_width]
  rfl

end Text

/-! ## Checked lookups -/

/-- What can go wrong when an index is asked. -/
inductive IndexFault where
  | belowZero
  | outOfRange
deriving DecidableEq, Repr

/-- Where the lines of a text start, and how many bytes it has. -/
structure LineIndex where
  starts : Array Nat
  length : Nat

namespace LineIndex

/-- What a search for a number in an ascending array comes to: the number is there, or there is a
place to put it in. -/
inductive Spot where
  | hit (place : Nat)
  | gap (place : Nat)
deriving DecidableEq, Repr

/-- One number less another, which must not be greater. -/
def minus (a b : Nat) : Except IndexFault Nat := if b ≤ a then .ok (a - b) else .error .belowZero

/-- Looks for a number between two places of an array, in one half after the other. -/
def search (numbers : Array Nat) (number low high : Nat) : Except IndexFault Spot :=
  if low < high then
    let middle := (low + high) / 2
    match numbers[middle]? with
    | none => .error .outOfRange
    | some other =>
      if other = number then .ok (.hit middle)
      else if other < number then search numbers number (middle + 1) high
      else search numbers number low middle
  else .ok (.gap low)
termination_by high - low

/-- The places behind the line feeds of some bytes that begin at an offset. -/
def startsFrom (offset : Nat) : List UInt8 → List Nat
  | [] => []
  | byte :: rest =>
    if byte = 10 then (offset + 1) :: startsFrom (offset + 1) rest else startsFrom (offset + 1) rest

/-- The index of some bytes: the first line starts with them, each other one behind a line feed. -/
def ofBytes (bytes : List UInt8) : LineIndex := ⟨(0 :: startsFrom 0 bytes).toArray, bytes.length⟩

def lineNumber (index : LineIndex) (offset : Nat) : Except IndexFault Nat :=
  match search index.starts (min offset index.length) 0 index.starts.size with
  | .error fault => .error fault
  | .ok (.hit place) => .ok place
  | .ok (.gap place) => minus place 1

/-- Where the line feed of a line is, or the end of the text. -/
def feedOf (index : LineIndex) (number : Nat) : Except IndexFault Nat :=
  match index.starts[number + 1]? with
  | none => .ok index.length
  | some next => minus next 1

def extent? (index : LineIndex) (bytes : List UInt8) (number : Nat) :
    Except IndexFault (Option (Nat × Nat)) :=
  match index.starts[number]? with
  | none => .ok none
  | some start => do
    let feed ← index.feedOf number
    if start < feed then
      let last ← minus feed 1
      return some (start, if bytes[last]? = some 13 then last else feed)
    else return some (start, feed)

def line? (index : LineIndex) (document : Document) (number : Nat) :
    Except IndexFault (Option Line) := do
  match ← index.extent? document.bytes number with
  | none => return none
  | some (start, stop) => return (slice? document.chars start stop).map fun text =>
      ⟨number, String.ofList text, start, stop⟩

end LineIndex

def Document.index (document : Document) : LineIndex := .ofBytes document.bytes

/-! ## Searching by halves -/

namespace LineIndex

variable {numbers : Array Nat}

theorem lt_of_ascending (ascending : numbers.toList.Pairwise (· < ·)) {i j a b : Nat}
    (ha : numbers[i]? = some a) (hb : numbers[j]? = some b) (less : i < j) : a < b := by
  rw [← Array.getElem?_toList] at ha hb
  obtain ⟨hi, rfl⟩ := List.getElem?_eq_some_iff.1 ha
  obtain ⟨hj, rfl⟩ := List.getElem?_eq_some_iff.1 hb
  exact List.pairwise_iff_getElem.1 ascending i j hi hj less

/-- The number is not among the others; those that are smaller stand before this place. -/
structure Divides (numbers : Array Nat) (number place : Nat) : Prop where
  le : place ≤ numbers.size
  iff : ∀ i other : Nat, numbers[i]? = some other → (i < place ↔ other < number)
  ne : ∀ i other : Nat, numbers[i]? = some other → other ≠ number

/-- A search in an ascending array reads inside the array and is right, if the number is not to be
found outside the places it is looked for at. -/
theorem search_eq_ok (ascending : numbers.toList.Pairwise (· < ·))
    {number low high : Nat} (ordered : low ≤ high) (short : high ≤ numbers.size)
    (before : ∀ i other : Nat, numbers[i]? = some other → i < low → other < number)
    (behind : ∀ i other : Nat, numbers[i]? = some other → high ≤ i → number < other) :
    (∃ place, search numbers number low high = .ok (.hit place) ∧ numbers[place]? = some number) ∨
      ∃ place, search numbers number low high = .ok (.gap place) ∧
        Divides numbers number place := by
  fun_induction search numbers number low high with
  | case1 low high less middle none =>
    rw [Array.getElem?_eq_none_iff] at none
    omega
  | case2 low high less middle held =>
    exact .inl ⟨middle, rfl, held⟩
  | case3 low high less middle other held differs smaller ih =>
    refine ih (by omega) short (fun i a ha hi => ?_) behind
    rcases Nat.lt_or_ge i middle with lower | upper
    · have := lt_of_ascending ascending ha held lower
      omega
    · obtain rfl : i = middle := by omega
      rw [held] at ha
      cases ha
      exact smaller
  | case4 low high less middle other held differs larger ih =>
    refine ih (by omega) (by omega) before fun i a ha hi => ?_
    rcases Nat.lt_or_ge middle i with upper | lower
    · have := lt_of_ascending ascending held ha upper
      omega
    · obtain rfl : i = middle := by omega
      rw [held] at ha
      cases ha
      omega
  | case5 low high met =>
    have sides : ∀ i other, numbers[i]? = some other →
        i < low ∧ other < number ∨ low ≤ i ∧ number < other := by
      intro i other held
      rcases Nat.lt_or_ge i low with lower | upper
      · exact .inl ⟨lower, before i other held lower⟩
      · exact .inr ⟨upper, behind i other held (by omega)⟩
    refine .inr ⟨low, rfl, by omega, fun i other held => ?_, fun i other held => ?_⟩
    · have := sides i other held
      omega
    · have := sides i other held
      omega

/-! ## The starts of lines -/

theorem startsFrom_append {bytes : List UInt8} (feed : 10 ∉ bytes) (offset : Nat)
    (rest : List UInt8) :
    startsFrom offset (bytes ++ rest) = startsFrom (offset + bytes.length) rest := by
  induction bytes generalizing offset with
  | nil => rfl
  | cons byte bytes ih =>
    rw [List.mem_cons, not_or] at feed
    rw [List.cons_append, startsFrom, if_neg (Ne.symm feed.1), ih feed.2, List.length_cons]
    congr 1
    omega

theorem startsFrom_lines (number offset : Nat) {raw : List Char} {below : List (List Char)}
    (feeds : ∀ line ∈ raw :: below, '\n' ∉ line) :
    offset :: startsFrom offset (bytesOf (raw ++ aheadLine below)) =
      (linesFrom number offset (raw :: below)).map Line.start := by
  induction below generalizing number offset raw with
  | nil =>
    have none := startsFrom_append
      (lineFeed_not_mem_bytesOf (feeds raw List.mem_cons_self)) offset []
    rw [List.append_nil] at none
    rw [aheadLine_nil, List.append_nil, none]
    rfl
  | cons next below ih =>
    rw [List.forall_mem_cons] at feeds
    have later := ih (number + 1) (offset + width raw + 1) feeds.2
    rw [bytesOf_append, startsFrom_append (lineFeed_not_mem_bytesOf feeds.1), length_bytesOf,
      linesFrom, List.map_cons, ← later]
    rfl

theorem starts_index (document : Document) :
    document.index.starts.toList = document.lines.map Line.start := by
  obtain ⟨raw, below, lines, text, feeds⟩ := document.exists_lines
  show 0 :: startsFrom 0 document.bytes = _
  rw [document.bytes_eq, text, startsFrom_lines 0 0 feeds, Document.lines, linesOf, lines]

theorem getElem?_starts (document : Document) (number : Nat) :
    document.index.starts[number]? = (document.line? number).map Line.start := by
  rw [← Array.getElem?_toList, starts_index, List.getElem?_map]
  rfl

theorem ascending_starts (document : Document) :
    document.index.starts.toList.Pairwise (· < ·) := by
  rw [starts_index, List.pairwise_map]
  exact (ascending_linesFrom _ _ _).2

/-! ## The line of a byte -/

theorem lineNumber_index (document : Document) (offset : Nat) :
    document.index.lineNumber offset = .ok (document.lineNumber offset) := by
  have ascending := ascending_starts document
  have starts : ∀ i start, document.index.starts[i]? = some start →
      (start ≤ min offset document.index.length ↔ i ≤ document.lineNumber offset) := by
    intro i start held
    rw [getElem?_starts, Option.map_eq_some_iff] at held
    obtain ⟨line, held, rfl⟩ := held
    exact Document.start_le_iff held offset
  have here : document.index.starts[document.lineNumber offset]? =
      some (document.lineAt offset).start := by
    rw [getElem?_starts, document.line?_lineNumber]
    rfl
  have reached := (starts _ _ here).2 (Nat.le_refl _)
  have searched := @search_eq_ok _ ascending (min offset document.index.length) 0 _
    (Nat.zero_le _) (Nat.le_refl _) (fun _ _ _ less => absurd less (Nat.not_lt_zero _))
    (fun i _ held most => absurd held (by simp [Array.getElem?_eq_none most]))
  rw [lineNumber]
  rcases searched with ⟨place, found, held⟩ | ⟨place, found, divides⟩
  · -- The byte is the start of a line, and the line of the byte starts at most there.
    have upper := (starts _ _ held).1 (Nat.le_refl _)
    have lower : document.lineNumber offset ≤ place := by
      refine Nat.le_of_not_lt fun less => ?_
      have := lt_of_ascending ascending held here less
      omega
    rw [found, Nat.le_antisymm lower upper]
  · -- The byte is behind the start of its line, and the next line starts behind it.
    have inside : document.lineNumber offset < place :=
      (divides.iff _ _ here).2 (Nat.lt_of_le_of_ne reached (divides.ne _ _ here))
    have short : place - 1 < document.index.starts.size := by
      have := divides.le
      omega
    have last := Array.getElem?_eq_getElem short
    have smaller := (divides.iff _ _ last).1 (by omega)
    have upper := (starts _ _ last).1 (Nat.le_of_lt smaller)
    rw [found]
    dsimp only
    rw [minus, if_pos (by omega)]
    congr 1
    omega

/-! ## The extent of a line -/

section

variable {document : Document} {above below : List (List Char)} {raw : List Char}

theorem feedOf_index (lines : split '\n' document.chars = above.reverse ++ raw :: below) :
    document.index.feedOf above.length = .ok (lineOffset above + width raw) := by
  rw [feedOf, getElem?_starts]
  cases below with
  | nil =>
    have none : document.line? (above.length + 1) = none := by
      rw [Document.line?, List.getElem?_eq_none_iff, Document.lines, linesOf, length_linesFrom,
        lines]
      simp
    have text := Document.chars_of_lines lines
    have length : document.index.length = document.bytes.length := rfl
    rw [none, Option.map_none, length, document.length_bytes, text]
    simp [width_behindLine]
  | cons next below =>
    have lines' : split '\n' document.chars = (raw :: above).reverse ++ next :: below := by
      rw [lines]
      simp
    rw [← List.length_cons (a := raw), Document.line?_of_lines lines', Option.map_some]
    show minus (lineOffset (raw :: above)) 1 = _
    rw [lineOffset_cons, minus, if_pos (by omega)]
    congr 1
    omega

/-- In front of the end of a line there is a carriage return if one belongs to the end. -/
theorem last_eq_return_iff (lines : split '\n' document.chars = above.reverse ++ raw :: below)
    (filled : raw ≠ []) :
    document.bytes[lineOffset above + width raw - 1]? = some 13 ↔ raw.getLast? = some '\r' := by
  rw [document.bytes_eq, Document.chars_of_lines lines, ← width_behindLine, ← width_reverse]
  exact getElem?_last_eq_return_iff filled _ _

end

theorem extent?_index (document : Document) (number : Nat) :
    document.index.extent? document.bytes number =
      .ok ((document.line? number).map fun line => (line.start, line.stop)) := by
  rw [extent?, getElem?_starts]
  cases held : document.line? number with
  | none => rfl
  | some line =>
    obtain ⟨above, raw, below, lines, rfl, rfl⟩ := Document.exists_of_line? held
    have feed := feedOf_index lines
    simp only [Option.map_some, feed, bind, Except.bind, pure, Except.pure, Document.lineBelow]
    by_cases filled : raw = []
    · subst filled
      rw [if_neg (by simp)]
      rfl
    · have wide : 0 < width raw := Nat.pos_of_ne_zero fun zero =>
        filled (Cursor.width_eq_zero zero)
      rw [if_pos (by omega), minus, if_pos (by omega)]
      dsimp only
      simp only [last_eq_return_iff lines filled]
      unfold dropReturn
      split
      · next ends =>
        obtain ⟨front, rfl⟩ := List.getLast?_eq_some_iff.1 ends
        have size : width ['\r'] = 1 := rfl
        rw [List.dropLast_concat, width_append, size]
        rfl
      · rfl

theorem line?_index (document : Document) (number : Nat) :
    document.index.line? document number = .ok (document.line? number) := by
  rw [line?, extent?_index]
  cases held : document.line? number with
  | none => rfl
  | some line =>
    obtain ⟨before, behind, text, start, stop⟩ := (Document.holds_of_line? held).slice
    have numbered := (number_linesFrom held).trans (Nat.zero_add _)
    have slice : slice? document.chars line.start line.stop = some line.text.toList := by
      rw [text, stop, start, slice?_append]
    simp only [Option.map_some, bind, Except.bind, pure, Except.pure, slice, String.ofList_toList,
      ← numbered]

end LineIndex

/-- **The lines of a document are a partition of its text.** Whatever the text and the offset are:
the number of a line is the number of line feeds before the byte, there is a line with that number,
and the byte is not before its start but before that of the next line. Every line is a stretch of
the text that starts on itself; with line feeds, or carriage returns and line feeds, between them,
and at most a carriage return at the end, the lines are the text. The index of the starts, which
takes no number from a smaller one and reads at no place that is not there, gives the same lines. -/
theorem lines_partition_text (document : Document) :
    (∀ offset,
      let byte := min offset document.bytes.length
      document.lineNumber offset = (document.bytes.take byte).count 10 ∧
      document.lineNumber offset < document.lines.length ∧
      document.line? (document.lineNumber offset) = some (document.lineAt offset) ∧
      (document.lineAt offset).start ≤ byte ∧
      ∀ next, document.line? (document.lineNumber offset + 1) = some next → byte < next.start) ∧
    (∀ number, (document.line? number).isSome = true ↔ number < document.lines.length) ∧
    (∀ number line, document.line? number = some line →
      line.number = number ∧ document.Holds line ∧ document.lineAt line.start = line) ∧
    Tiles 0 0 document.lines document.chars ∧
    document.index.starts.size = document.lines.length ∧
    (∀ offset, document.index.lineNumber offset = .ok (document.lineNumber offset)) ∧
    ∀ number, document.index.line? document number = .ok (document.line? number) := by
  refine ⟨fun offset => ?_, fun number => ?_, fun number line held => ?_, document.tiles_lines, ?_,
    LineIndex.lineNumber_index document, LineIndex.line?_index document⟩
  · have held := document.line?_lineNumber offset
    refine ⟨?_, document.lineNumber_lt offset, held, ?_, fun next held' => ?_⟩
    · rw [document.lineNumber_eq_count, ← List.take_eq_take_min]
    · exact (Document.start_le_iff held offset).2 (Nat.le_refl _)
    · have behind := Document.start_le_iff held' offset
      omega
  · rw [Document.line?, Option.isSome_iff_ne_none, Ne, List.getElem?_eq_none_iff, Nat.not_le]
  · refine ⟨(number_linesFrom held).trans (Nat.zero_add _), Document.holds_of_line? held, ?_⟩
    obtain ⟨above, raw, below, lines, -, rfl⟩ := Document.exists_of_line? held
    exact Document.lineAt_lineOffset lines
  · rw [← Array.length_toList, LineIndex.starts_index, List.length_map]

/-- A line that ends in a carriage return and a line feed, an empty one, and one that ends the text
with a carriage return; a byte far behind the end is on the last line. -/
theorem three_lines_partition :
    let document : Document := ⟨⟨"Makefile"⟩, "é:\r\n\n\tx\r"⟩
    document.line? 2 = some ⟨2, "\tx", 6, 8⟩ ∧ document.lineAt 6 = ⟨2, "\tx", 6, 8⟩ ∧
      document.line? 1 = some ⟨1, "", 5, 5⟩ ∧ document.lineNumber 5 = 1 ∧ 5 < 6 ∧
      document.index.lineNumber 100 = .ok 2 ∧ document.index.line? document 3 = .ok none := by
  intro document
  obtain ⟨number, -, each, -, -, numbered, read⟩ := lines_partition_text document
  have last : document.line? 2 = some ⟨2, "\tx", 6, 8⟩ := by decide +kernel
  have empty : document.line? 1 = some ⟨1, "", 5, 5⟩ := by decide +kernel
  have here : document.lineNumber 5 = 1 := by decide +kernel
  have byte : min 5 document.bytes.length = 5 := by decide +kernel
  have before := (number 5).2.2.2.2 ⟨2, "\tx", 6, 8⟩
  rw [here, byte] at before
  refine ⟨last, (each 2 _ last).2.2, empty, here, before last, ?_, ?_⟩
  · rw [numbered]
    exact congrArg Except.ok (by decide +kernel)
  · rw [read]
    exact congrArg Except.ok (by decide +kernel)

end BuildTargets
