import BuildTargets.Proofs.Grammar.Bytewise

/-!
# Sweeping a text by bytes

A sweep asks for one search after the other, whoever answers them: each begins where the match
before it ends, and at least one byte further, which may be inside a character. If the answers are
places between characters, none before the byte that was asked about, the sweep goes through: no
search begins beyond the text, and there is one for each byte at most and one at the end. The
pattern of a grammar answers like that, and with it the sweep finds the headers of the grammar.
-/

namespace BuildTargets

open Text Pattern Bytewise

namespace Document

theorem start_lineAt_offset {document : Document} {here : Cursor}
    (text : here.text = document.chars) : (document.lineAt here.offset).start = here.lineStart := by
  -- No line feed lies between the start of the line and the place, so both have one line number.
  have same : document.lineNumber here.offset = document.lineNumber here.lineBegin.offset := by
    have feedless : (here.behind.takeWhile (· != '\n')).count '\n' = 0 :=
      List.count_eq_zero.2 fun mem => by
        simpa using List.all_eq_true.1 List.all_takeWhile '\n' mem
    have whole := congrArg (List.count '\n')
      (List.takeWhile_append_dropWhile (p := (· != '\n')) (l := here.behind))
    rw [List.count_append, feedless, Nat.zero_add] at whole
    have begin_text := here.lineBegin_reaches.text_eq.symm.trans text
    rw [lineNumber, lineNumber, ← begin_text, here.lineBegin.lineFeedsBefore_offset, begin_text,
      ← text, here.lineFeedsBefore_offset]
    exact whole.symm
  obtain ⟨above, line, below, lines, begins⟩ := startsLine_of_holds
    (here.lineBegin_reaches.text_eq.symm.trans text) here.holds_lineBegin
  rw [← here.offset_lineBegin, lineAt, same, ← lineAt, begins]
  exact start_lineAt lines

end Document

/-! ## Sweeps -/

namespace Bytewise

/-- Whoever answers searches, which begin at a byte. -/
abbrev Engine := Nat → Option Report

def Sound (engine : Engine) (text : List Char) : Prop :=
  ∀ cursor report, cursor ≤ width text → engine cursor = some report → report.Sound text cursor

/-- Where the search behind a match begins: where the match ends, and at least one byte further. -/
def Report.next (report : Report) (cursor : Nat) : Nat := max report.whole.stop (cursor + 1)

theorem Report.lt_next (report : Report) (cursor : Nat) : cursor < report.next cursor :=
  Nat.lt_of_lt_of_le (Nat.lt_succ_self _) (Nat.le_max_right _ _)

/-- Asks for a search, which must not begin beyond the text. -/
def search (engine : Engine) (text : List Char) (cursor : Nat) :
    Except ScanFault (Option Report) :=
  if cursor ≤ width text then .ok (engine cursor) else .error (.searchBeyond cursor)

/-- What it takes to come to the next header: where the searches began, the header, if there is one
more, and where the next search begins. -/
structure Pull where
  searches : List Nat
  header? : Option Header
  cursor : Nat

/-- Looks for the next header from a byte on, behind one match after the other that stands for
none. -/
def pull (engine : Engine) (text : List Char) (cursor : Nat) : Except ScanFault Pull :=
  if cursor ≤ width text then
    match search engine text cursor with
    | .error fault => .error fault
    | .ok none => .ok ⟨[cursor], none, cursor⟩
    | .ok (some report) =>
      match accept text report with
      | .error fault => .error fault
      | .ok (some header) => .ok ⟨[cursor], some header, report.next cursor⟩
      | .ok none =>
        match pull engine text (report.next cursor) with
        | .error fault => .error fault
        | .ok later => .ok { later with searches := cursor :: later.searches }
  else .ok ⟨[], none, cursor⟩
termination_by width text + 1 - cursor
decreasing_by
  have := report.lt_next cursor
  omega

/-- A header is found by a search in the text, and the next search begins further on. -/
theorem pull_progress {engine : Engine} {text : List Char} {cursor : Nat} {pulled : Pull}
    {header : Header} (h : pull engine text cursor = .ok pulled)
    (found : pulled.header? = some header) : cursor < pulled.cursor ∧ cursor ≤ width text := by
  fun_induction pull engine text cursor generalizing pulled with
  | case1 | case3 | case5 => cases h
  | case2 | case7 =>
    cases h
    cases found
  | case4 cursor short report =>
    cases h
    exact ⟨report.lt_next cursor, short⟩
  | case6 cursor short report _ _ later behind ih =>
    cases h
    exact ⟨Nat.lt_trans (report.lt_next cursor) (ih behind found).1, short⟩

/-- What a whole sweep of a text comes to: where its searches began, and the headers. -/
structure Sweep where
  searches : List Nat
  headers : List Header
deriving DecidableEq, Repr

def exhaust (engine : Engine) (text : List Char) (cursor : Nat) : Except ScanFault Sweep :=
  match _h : pull engine text cursor with
  | .error fault => .error fault
  | .ok ⟨searches, none, _⟩ => .ok ⟨searches, []⟩
  | .ok ⟨searches, some header, after⟩ =>
    match exhaust engine text after with
    | .error fault => .error fault
    | .ok later => .ok ⟨searches ++ later.searches, header :: later.headers⟩
termination_by width text + 1 - cursor
decreasing_by
  obtain ⟨further, short⟩ := pull_progress _h rfl
  dsimp only at further
  omega

section

variable {engine : Engine} {text : List Char} {cursor after : Nat} {searches : List Nat}

theorem exhaust_of_none (h : pull engine text cursor = .ok ⟨searches, none, after⟩) :
    exhaust engine text cursor = .ok ⟨searches, []⟩ := by
  rw [exhaust]
  split
  · next stuck => cases h.symm.trans stuck
  · next pulled =>
    cases h.symm.trans pulled
    rfl
  · next pulled => cases h.symm.trans pulled

theorem exhaust_of_some {header : Header} {later : Sweep}
    (h : pull engine text cursor = .ok ⟨searches, some header, after⟩)
    (h' : exhaust engine text after = .ok later) :
    exhaust engine text cursor = .ok ⟨searches ++ later.searches, header :: later.headers⟩ := by
  rw [exhaust]
  split
  · next stuck => cases h.symm.trans stuck
  · next pulled => cases h.symm.trans pulled
  · next pulled =>
    cases h.symm.trans pulled
    rw [h']

end

/-! ## Scanning with good answers -/

/-- The search that begins at a byte finds the header: what it reports as the name is the name, and
the header line is the line of the name. The header begins with the match or with its line. -/
structure Yields (engine : Engine) (document : Document) (cursor : Nat) (header : Header) : Prop where
  answer : ∃ report name, engine cursor = some report ∧ report.name = some name ∧
    slice document.chars name.start name.stop = .ok header.name.toList ∧
    header.headerOffset = (document.lineAt name.start).start ∧
    (header.offset = report.whole.start ∨ header.offset = header.headerOffset)
  offset : IsBoundary document.chars header.offset
  headerOffset : IsBoundary document.chars header.headerOffset

/-- Searches begin one behind the other, within bounds. -/
structure Ascending (low high : Nat) (searches : List Nat) : Prop where
  pairwise : searches.Pairwise (· < ·)
  within : ∀ cursor ∈ searches, low ≤ cursor ∧ cursor ≤ high

/-- The searches of a pull ascend. A header that is pulled comes from one of them, and the next
search begins behind all of them. -/
structure Pull.Sound (pulled : Pull) (engine : Engine) (document : Document) (cursor : Nat) :
    Prop where
  ascending : Ascending cursor (width document.chars) pulled.searches
  header : ∀ header, pulled.header? = some header →
    (∀ earlier ∈ pulled.searches, earlier < pulled.cursor) ∧
      ∃ earlier ∈ pulled.searches, Yields engine document earlier header

/-- The searches of a sweep ascend, and every header comes from one of them. -/
structure Sweep.Sound (sweep : Sweep) (engine : Engine) (document : Document) (cursor : Nat) :
    Prop where
  ascending : Ascending cursor (width document.chars) sweep.searches
  header : ∀ header ∈ sweep.headers,
    ∃ earlier ∈ sweep.searches, Yields engine document earlier header

namespace Ascending

variable {low mid high cursor : Nat} {searches later : List Nat}

theorem nil : Ascending low high [] := ⟨.nil, List.forall_mem_nil _⟩

theorem cons (h : Ascending mid high searches) (further : cursor < mid) (short : cursor ≤ high) :
    Ascending cursor high (cursor :: searches) := by
  refine ⟨List.pairwise_cons.2 ⟨fun other mem => ?_, h.pairwise⟩,
    List.forall_mem_cons.2 ⟨⟨Nat.le_refl _, short⟩, fun other mem => ?_⟩⟩
  · have := (h.within other mem).1
    omega
  · have := h.within other mem
    omega

theorem append (h : Ascending low high searches) (h' : Ascending mid high later)
    (before : ∀ cursor ∈ searches, cursor < mid) (ordered : low ≤ mid) :
    Ascending low high (searches ++ later) := by
  refine ⟨List.pairwise_append.2 ⟨h.pairwise, h'.pairwise, fun first mem other mem' => ?_⟩,
    fun other mem => ?_⟩
  · exact Nat.lt_of_lt_of_le (before first mem) (h'.within other mem').1
  · rcases List.mem_append.1 mem with mem | mem
    · exact h.within other mem
    · have := h'.within other mem
      omega

/-- No more searches than bytes, and one at the end. -/
theorem length_le (h : Ascending low high searches) : searches.length ≤ high + 1 := by
  have nodup : searches.Nodup := h.pairwise.imp fun less => Nat.ne_of_lt less
  have bounded : searches ⊆ List.range (high + 1) := fun cursor mem =>
    List.mem_range.2 (Nat.lt_succ_of_le (h.within cursor mem).2)
  have shorter := nodup.length_le_of_subset bounded
  rwa [List.length_range] at shorter

end Ascending

section

variable {engine : Engine} {document : Document} {report : Report}

theorem search_eq {text : List Char} {cursor : Nat} (short : cursor ≤ width text) :
    search engine text cursor = .ok (engine cursor) := if_pos short

theorem accept_sound {cursor : Nat} (sound : Sound engine document.chars)
    (short : cursor ≤ width document.chars) (answer : engine cursor = some report) :
    ∃ header?, accept document.chars report = .ok header? ∧
      ∀ header, header? = some header → Yields engine document cursor header := by
  obtain ⟨found, inside, rfl⟩ := (sound cursor report short answer).exists_found
  refine ⟨_, inside.accept_eq, fun header accepted => ?_⟩
  obtain ⟨name, group, named, headerOffset, offset⟩ := Grammar.accept?_eq_some accepted
  have within := inside.group group
  have begins : IsBoundary document.chars name.start.lineStart := by
    rw [← within.text_eq, ← name.start.offset_lineBegin,
      name.start.lineBegin_reaches.text_eq]
    exact name.start.lineBegin.isBoundary
  refine ⟨⟨_, name.extent, answer, congrArg (Option.map Span.extent) group, ?_, ?_, ?_⟩, ?_, ?_⟩
  · rw [named, Span.text, String.toList_ofList]
    exact within.slice_eq
  · rw [headerOffset]
    exact (Document.start_lineAt_offset within.text_eq).symm
  · rw [headerOffset]
    exact offset
  · rcases offset with same | same <;> rw [same]
    · exact inside.whole.extent_in.start
    · exact begins
  · rw [headerOffset]
    exact begins

/-- Every pull goes through. -/
theorem exists_pull (sound : Sound engine document.chars) (cursor : Nat) :
    ∃ pulled, pull engine document.chars cursor = .ok pulled ∧
      pulled.Sound engine document cursor := by
  fun_induction pull engine document.chars cursor with
  | case1 cursor short fault beyond =>
    rw [search_eq short] at beyond
    cases beyond
  | case2 cursor short =>
    exact ⟨_, rfl, Ascending.nil.cons (Nat.lt_succ_self _) short, nofun⟩
  | case3 cursor short report answer fault refused =>
    rw [search_eq short, Except.ok.injEq] at answer
    obtain ⟨_, accepted, -⟩ := accept_sound sound short answer
    cases refused.symm.trans accepted
  | case4 cursor short report answer header accepted =>
    rw [search_eq short, Except.ok.injEq] at answer
    obtain ⟨_, same, yields⟩ := accept_sound sound short answer
    cases accepted.symm.trans same
    refine ⟨_, rfl, Ascending.nil.cons (Nat.lt_succ_self _) short, fun _ found => ?_⟩
    cases found
    exact ⟨List.forall_mem_singleton.2 (report.lt_next cursor), cursor, List.mem_singleton_self _,
      yields header rfl⟩
  | case5 cursor short report answer refused fault stuck ih =>
    obtain ⟨_, pulled, -⟩ := ih
    cases stuck.symm.trans pulled
  | case6 cursor short report answer refused later pulled ih =>
    obtain ⟨_, same, ascending, from_later⟩ := ih
    cases pulled.symm.trans same
    refine ⟨_, rfl, ascending.cons (report.lt_next cursor) short, fun header found => ?_⟩
    obtain ⟨before, earlier, mem, yields⟩ := from_later header found
    -- The later searches begin behind this one, and the next search behind those.
    have further : cursor < later.cursor :=
      Nat.lt_trans (report.lt_next cursor) (pull_progress pulled found).1
    exact ⟨List.forall_mem_cons.2 ⟨further, before⟩, earlier, List.mem_cons_of_mem _ mem, yields⟩
  | case7 cursor beyond => exact ⟨_, rfl, .nil, nofun⟩

theorem exists_exhaust (sound : Sound engine document.chars) (cursor : Nat) :
    ∃ sweep, exhaust engine document.chars cursor = .ok sweep ∧
      sweep.Sound engine document cursor := by
  fun_induction exhaust engine document.chars cursor with
  | case1 cursor fault stuck =>
    obtain ⟨_, pulled, -⟩ := exists_pull sound cursor
    cases stuck.symm.trans pulled
  | case2 cursor searches after pulled =>
    obtain ⟨_, same, ascending, -⟩ := exists_pull sound cursor
    cases pulled.symm.trans same
    exact ⟨_, rfl, ascending, List.forall_mem_nil _⟩
  | case3 cursor searches header after pulled fault stuck ih =>
    obtain ⟨_, swept, -⟩ := ih
    cases stuck.symm.trans swept
  | case4 cursor searches header after pulled later swept ih =>
    obtain ⟨_, same, ascending, from_pull⟩ := exists_pull sound cursor
    cases pulled.symm.trans same
    obtain ⟨before, earlier, mem, yields⟩ := from_pull header rfl
    obtain ⟨_, same, ascending', from_later⟩ := ih
    cases swept.symm.trans same
    have further := (pull_progress pulled rfl).1
    refine ⟨_, rfl, ascending.append ascending' before (Nat.le_of_lt further),
      List.forall_mem_cons.2 ⟨?_, fun other listed => ?_⟩⟩
    · exact ⟨earlier, List.mem_append_left _ mem, yields⟩
    · obtain ⟨earlier', mem', yields'⟩ := from_later other listed
      exact ⟨earlier', List.mem_append_right _ mem', yields'⟩

end

end Bytewise

/-! ## The pattern of a grammar as an engine -/

namespace Grammar

variable {grammar : Grammar} {scanner : Scanner} {text : List Char}

/-- Searches by the pattern of the grammar, at the first place at the byte or behind it. -/
def engine (grammar : Grammar) (text : List Char) : Engine := fun cursor =>
  (grammar.header.find? ((Cursor.start text).seek cursor)).map Found.report

theorem sound_engine (grammar : Grammar) (text : List Char) : Sound (grammar.engine text) text := by
  intro cursor report short answer
  obtain ⟨found, search, rfl⟩ := Option.map_eq_some_iff.1 answer
  obtain ⟨within, later⟩ := Pattern.in_of_find? search
  have text_eq : ((Cursor.start text).seek cursor).text = text :=
    ((Cursor.start text).reaches_seek cursor).text_eq
  have inside : found.In text := text_eq ▸ within
  have sought : cursor ≤ ((Cursor.start text).seek cursor).offset := Cursor.le_offset_seek short
  refine ⟨Nat.le_trans sought later, inside.whole.extent_in, fun extent some => ?_,
    fun extent some => ?_⟩
  all_goals
    obtain ⟨span, group, rfl⟩ := Option.map_eq_some_iff.1 some
    exact (inside.group group).extent_in

theorem Scanner.On.engine_eq (on : scanner.On text) :
    grammar.engine text scanner.next =
      (grammar.header.find? scanner.cursor).map Found.report := by
  have place : (Cursor.start text).Reaches scanner.place := .of_le on.text_eq (Nat.zero_le _)
  rw [engine, place.seek_congr on.le_next, Scanner.cursor]

theorem pull_engine (grammar : Grammar) {scanner : Scanner} (on : scanner.On text) :
    ∃ pulled, pull (grammar.engine text) text scanner.next = .ok pulled ∧
      pulled.header? = (grammar.next? scanner).map Prod.fst ∧
      ∀ header after, grammar.next? scanner = some (header, after) →
        after.On text ∧ pulled.cursor = after.next := by
  fun_induction next? grammar scanner with
  | case1 scanner short search =>
    have short' := on.length ▸ short
    rw [pull, if_pos short', search_eq short', on.engine_eq, search]
    refine ⟨_, rfl, rfl, fun header after taken => ?_⟩
    cases taken
  | case2 scanner short found search header accepted =>
    have short' := on.length ▸ short
    obtain ⟨-, on', -⟩ := on.finds short search
    have inside : found.In text := on.cursor_text ▸ (Pattern.in_of_find? search).1
    rw [pull, if_pos short', search_eq short', on.engine_eq, search, Option.map_some]
    dsimp only
    rw [inside.accept_eq, accepted]
    refine ⟨_, rfl, rfl, fun header after same => ?_⟩
    cases same
    exact ⟨on', rfl⟩
  | case3 scanner short found search refused ih =>
    have short' := on.length ▸ short
    obtain ⟨-, on', -⟩ := on.finds short search
    have inside : found.In text := on.cursor_text ▸ (Pattern.in_of_find? search).1
    obtain ⟨later, pulled, header, after⟩ := ih on'
    rw [pull, if_pos short', search_eq short', on.engine_eq, search, Option.map_some]
    dsimp only
    rw [inside.accept_eq, refused]
    dsimp only
    have next : found.report.next scanner.next = (scanner.after found).next := rfl
    rw [next, pulled]
    exact ⟨_, rfl, header, after⟩
  | case4 scanner beyond =>
    rw [pull, if_neg (on.length ▸ beyond)]
    refine ⟨_, rfl, rfl, fun header after taken => ?_⟩
    cases taken

theorem exhaust_engine {grammar : Grammar} {scanner : Scanner} {text : List Char}
    (on : scanner.On text) :
    ∃ searches, exhaust (grammar.engine text) text scanner.next =
      .ok ⟨searches, grammar.remaining scanner⟩ := by
  fun_induction remaining grammar scanner with
  | case1 scanner done =>
    obtain ⟨⟨searches, header?, cursor⟩, pulled, header, -⟩ := grammar.pull_engine on
    rw [done] at header
    cases header
    exact ⟨searches, exhaust_of_none pulled⟩
  | case2 scanner header after taken progress ih =>
    obtain ⟨⟨searches, header?, cursor⟩, pulled, same, next⟩ := grammar.pull_engine on
    rw [taken] at same
    cases same
    obtain ⟨on', rfl⟩ := next header after taken
    obtain ⟨later, swept⟩ := ih on'
    exact ⟨searches ++ later, exhaust_of_some pulled swept⟩

end Grammar

/-- **Scanning is total.** A stretch can be cut out of a text exactly where it begins and ends
between characters. Whoever answers the searches: if nothing is found before the byte that was asked
about, and what is found lies between characters, then every sweep of a text goes through, wherever
a search may begin. No cut fails, and no search begins beyond the text. The searches begin one
behind the other, one for each byte at most and one at the end. Every header comes from one of them:
its header line is the line that holds the name, and both offsets lie between characters. The
pattern of a grammar answers like that, whatever the grammar is, and the sweep finds the headers of
the grammar. -/
theorem scanning_is_total (document : Document) :
    (∀ extent : Extent, (∃ inside, slice document.chars extent.start extent.stop = .ok inside) ↔
      extent.In document.chars) ∧
    (∀ engine : Engine, Sound engine document.chars →
      ∃ sweep, exhaust engine document.chars 0 = .ok sweep ∧
        sweep.searches.length ≤ document.bytes.length + 1 ∧
        sweep.searches.Pairwise (· < ·) ∧
        (∀ cursor ∈ sweep.searches, cursor ≤ document.bytes.length) ∧
        ∀ header ∈ sweep.headers, ∃ cursor ∈ sweep.searches,
          Yields engine document cursor header) ∧
    ∀ grammar : Grammar, Sound (grammar.engine document.chars) document.chars ∧
      ∃ searches, exhaust (grammar.engine document.chars) document.chars 0 =
        .ok ⟨searches, grammar.headers document.text⟩ := by
  refine ⟨fun extent => exists_slice_iff, fun engine sound => ?_, fun grammar => ?_⟩
  · obtain ⟨sweep, swept, ascending, yields⟩ := exists_exhaust sound 0
    rw [document.length_bytes]
    exact ⟨sweep, swept, ascending.length_le, ascending.pairwise, fun cursor mem =>
      (ascending.within cursor mem).2, yields⟩
  · exact ⟨grammar.sound_engine _, Grammar.exhaust_engine (Grammar.Scanner.on_start _)⟩

/-- Behind the empty name before a character of two bytes the next search begins inside of it. -/
theorem search_inside_character :
    let document : Document := ⟨⟨"words"⟩, "é\nab"⟩
    let sweep : Sweep := ⟨[0, 1, 5], [⟨"", "", 0, 0⟩, ⟨"ab", "", 3, 3⟩]⟩
    Sound (words.engine document.chars) document.chars ∧
      exhaust (words.engine document.chars) document.chars 0 = .ok sweep ∧
      ¬ Extent.In ⟨1, 1⟩ document.chars ∧ sweep.searches.length ≤ document.bytes.length + 1 ∧
      ∃ cursor ∈ sweep.searches,
        Yields (words.engine document.chars) document cursor ⟨"ab", "", 3, 3⟩ := by
  intro document sweep
  obtain ⟨cut, total, same⟩ := scanning_is_total document
  have sound := (same words).1
  have swept : exhaust (words.engine document.chars) document.chars 0 = .ok sweep := by
    decide +kernel
  have torn : ∀ inside, slice document.chars 1 1 ≠ .ok inside := by
    have fault : slice document.chars 1 1 = .error (.badSlice 1 1) := by decide +kernel
    intro inside within
    cases fault.symm.trans within
  obtain ⟨_, swept', short, -, -, yields⟩ := total _ sound
  cases swept.symm.trans swept'
  refine ⟨sound, swept, fun inside => ?_, short, yields _ (by decide)⟩
  obtain ⟨chars, within⟩ := (cut ⟨1, 1⟩).2 inside
  exact torn chars within

end BuildTargets
