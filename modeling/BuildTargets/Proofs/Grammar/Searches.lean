import BuildTargets.Proofs.Grammar.TargetLines
import BuildTargets.Proofs.Path.Components
import BuildTargets.Proofs.Pattern.Limit

/-!
# Searches of the scanner

The scanner of a grammar makes one search after the other, each from where the match before it ends
and at least one byte further than the search before. Its matches never overlap and come in the
order of the text. Only an empty match that lies behind the byte where its search began is found
once more by the next search: it ends where it begins, which is no byte behind that place. Wherever
names are not empty, patterns that match at starts of lines only find one header on a line at most.
-/

namespace BuildTargets

open Text Pattern

/-! ## Starts of lines -/

namespace Text.Cursor

variable {here there : Cursor}

def lineBegin (here : Cursor) : Cursor :=
  .between here.beforeLine ((here.behind.takeWhile (· != '\n')).reverse ++ here.ahead)

theorem offset_lineBegin (here : Cursor) : here.lineBegin.offset = here.lineStart :=
  here.lineStart_eq.symm

theorem lineBegin_reaches (here : Cursor) : here.lineBegin.Reaches here := by
  refine ⟨(here.behind.takeWhile (· != '\n')).reverse, rfl, ?_⟩
  rw [List.reverse_reverse]
  exact List.takeWhile_append_dropWhile.symm

theorem holds_lineBegin (here : Cursor) : Boundary.lineStart.holds here.lineBegin = true := by
  have stop := List.head?_dropWhile_not (· != '\n') here.behind
  show (here.beforeLine.head?.isNone || here.beforeLine.head? == some '\n') = true
  rw [beforeLine]
  cases before : (here.behind.dropWhile (· != '\n')).head? with
  | none => rfl
  | some c =>
    rw [before] at stop
    simpa using stop

/-- What comes behind the start of a line is on that line or on a later one. -/
theorem Reaches.le_lineStart (h : here.Reaches there)
    (starts : Boundary.lineStart.holds here = true) : here.offset ≤ there.lineStart := by
  obtain ⟨w, passes⟩ := h
  have stays : here.behind.dropWhile (· != '\n') = here.behind := by
    cases before : here.behind with
    | nil => rfl
    | cons c behind =>
      have feed : c = '\n' := by simpa [Boundary.holds, before] using starts
      exact List.dropWhile_cons_of_neg (by simp [feed])
  rw [lineStart_eq, beforeLine, passes.behind, List.dropWhile_append, here.offset_eq]
  split
  · exact Nat.le_of_eq (congrArg width stays.symm)
  · rw [width_append]
    exact Nat.le_add_left _ _

theorem lineStart_le (here : Cursor) : here.lineStart ≤ here.offset := Nat.sub_le _ _

end Text.Cursor

namespace Document

variable {document : Document} {here : Cursor}

theorem offset_eq_lineOffset {above below : List (List Char)} {line : List Char}
    (text : here.text = document.chars) (ahead : split '\n' here.ahead = line :: below)
    (lines : split '\n' document.chars = above.reverse ++ line :: below) :
    here.offset = lineOffset above := by
  have whole := joinWith_split '\n' document.chars
  have rest := joinWith_split '\n' here.ahead
  rw [lines, joinWith_above, ← joinWith_lines, ← ahead, rest, ← text, Cursor.text,
    List.append_cancel_right_eq, List.reverse_inj] at whole
  rw [← width_behindLine, whole, here.offset_eq]

/-- A place of the text with nothing or a line feed before it is the start of a line. -/
theorem startsLine_of_holds (text : here.text = document.chars)
    (starts : Boundary.lineStart.holds here = true) : document.StartsLine here.offset := by
  obtain ⟨line, below, ahead⟩ := List.exists_cons_of_ne_nil (split_ne_nil '\n' here.ahead)
  have whole := text
  rw [Cursor.text] at whole
  cases before : here.behind with
  | nil =>
    rw [before] at whole
    have lines : split '\n' document.chars = [].reverse ++ line :: below := by
      rw [← whole]
      exact ahead
    exact ⟨[], line, below, lines, offset_eq_lineOffset text ahead lines⟩
  | cons c behind =>
    have feed : c = '\n' := by simpa [Boundary.holds, before] using starts
    have lines : split '\n' document.chars =
        (split '\n' behind.reverse).reverse.reverse ++ line :: below := by
      rw [← whole, before, feed, List.reverse_cons, List.append_assoc, List.singleton_append,
        split_append, ahead, List.reverse_reverse]
    exact ⟨_, line, below, lines, offset_eq_lineOffset text ahead lines⟩

end Document

/-! ## Headers within their matches -/

/-- A stretch that does not go on ahead has no text. -/
theorem Span.text_of_le {span : Span} (h : span.stop.offset ≤ span.start.offset) :
    span.text = "" := by
  unfold text chars Cursor.textTo
  cases span.start.ahead with
  | nil => rfl
  | cons c rest =>
    rw [Cursor.takeTo, if_pos h]

def Pattern.AtLineStarts (pattern : Pattern) : Prop :=
  ∀ {limit here found}, pattern.matchAt? limit here = some found →
    Boundary.lineStart.holds here = true

theorem Pattern.atLineStarts_seq (body : Pattern) :
    AtLineStarts (.seq (.assert .lineStart) body) := by
  intro limit here found matched
  rw [matchAt?, run_seq, run_assert] at matched
  split at matched
  · assumption
  · cases matched

namespace Grammar

theorem accept?_eq_some {found : Found} {header : Header} (h : accept? found = some header) :
    ∃ name, found.group? targetGroup = some name ∧ header.name = name.text ∧
      header.headerOffset = name.start.lineStart ∧
      (header.offset = found.whole.start.offset ∨ header.offset = name.start.lineStart) := by
  unfold accept? at h
  split at h
  · cases h
  · next name group =>
    refine ⟨name, group, ?_⟩
    split at h
    · cases h
    · split at h
      · cases h
      · dsimp only at h
        split at h
        · split at h <;> cases h
          · exact ⟨rfl, rfl, .inr rfl⟩
          · exact ⟨rfl, rfl, .inl rfl⟩
        · cases h
          exact ⟨rfl, rfl, .inr rfl⟩

end Grammar

/-- A header begins inside a match, and so does its header line; if it has a name, more of the match
follows. -/
structure Header.Within (header : Header) (found : Found) : Prop where
  start_le : found.whole.start.offset ≤ header.offset
  le_stop : header.headerOffset ≤ found.whole.stop.offset
  lt_stop : header.name ≠ "" → header.headerOffset < found.whole.stop.offset

/-- Where a match begins at the start of a line, so does its header. -/
theorem Header.starts_and_within {document : Document} {found : Found} {here : Cursor}
    {header : Header} (matched : found.From here) (text : here.text = document.chars)
    (starts : Boundary.lineStart.holds here = true) (h : Grammar.accept? found = some header) :
    header.Starts document ∧ header.Within found := by
  obtain ⟨name, group, named, headerOffset, offset⟩ := Grammar.accept?_eq_some h
  have within := matched.group group
  have lower := within.start.le_lineStart starts
  have upper := name.start.lineStart_le
  have inside := within.inside.offset_le
  have stop := within.stop.offset_le
  have headerStarts : document.StartsLine name.start.lineStart := by
    have begins := name.start.lineBegin_reaches.text_eq.symm.trans within.start.text_eq
    rw [← name.start.offset_lineBegin]
    exact Document.startsLine_of_holds (begins.trans text) name.start.holds_lineBegin
  rw [matched.start] at offset
  refine ⟨⟨?_, headerOffset ▸ headerStarts, ?_⟩, ?_, ?_, fun filled => ?_⟩
  · rcases offset with same | same <;> rw [same]
    · exact Document.startsLine_of_holds text starts
    · exact headerStarts
  · omega
  · rw [matched.start]
    omega
  · omega
  · have longer : ¬ name.stop.offset ≤ name.start.offset := fun empty =>
      filled (named.trans (Span.text_of_le empty))
    omega

theorem Header.name_of_empty {found : Found} {here : Cursor} {header : Header}
    (matched : found.From here) (empty : found.whole.stop.offset = found.whole.start.offset)
    (h : Grammar.accept? found = some header) : header.name = "" := by
  obtain ⟨name, group, named, -⟩ := Grammar.accept?_eq_some h
  have within := matched.group group
  have start := within.start.offset_le
  have stop := within.stop.offset_le
  rw [matched.start] at empty
  exact named.trans (Span.text_of_le (by omega))

/-! ## Searches -/

/-- One search of the scanner: the byte where it begins, and the match that it finds. -/
structure Search where
  next : Nat
  found : Found

namespace Search

def start (search : Search) : Nat := search.found.whole.start.offset

def stop (search : Search) : Nat := search.found.whole.stop.offset

/-- The header that the match stands for, unless it is turned down. -/
def header? (search : Search) : Option Header := Grammar.accept? search.found

/-- The match is empty and lies behind the byte where the search began. -/
def Stalls (search : Search) : Prop := search.next < search.start ∧ search.stop = search.start

end Search

namespace Grammar

/-- The searches that a scanner makes, up to the first one without a match. -/
def searches (grammar : Grammar) (scanner : Scanner) : List Search :=
  if scanner.next ≤ scanner.length then
    match grammar.header.find? scanner.cursor with
    | none => []
    | some found => ⟨scanner.next, found⟩ :: searches grammar (scanner.after found)
  else []
termination_by scanner.length + 1 - scanner.next
decreasing_by
  have := scanner.lt_next_after found
  have : (scanner.after found).length = scanner.length := rfl
  omega

variable {grammar : Grammar} {scanner : Scanner} {text : List Char} {found : Found}

theorem searches_of_find? (short : scanner.next ≤ scanner.length)
    (h : grammar.header.find? scanner.cursor = some found) :
    grammar.searches scanner = ⟨scanner.next, found⟩ :: grammar.searches (scanner.after found) := by
  rw [searches, if_pos short, h]

theorem searches_of_find?_none (h : grammar.header.find? scanner.cursor = none) :
    grammar.searches scanner = [] := by
  rw [searches, h, ite_self]

/-- The scanner passes over searches that are turned down, up to one that finds a header. -/
theorem searches_of_next? {after : Scanner} {header : Header}
    (h : grammar.next? scanner = some (header, after)) :
    ∃ passed search, grammar.searches scanner = passed ++ search :: grammar.searches after ∧
      (∀ other ∈ passed, other.header? = none) ∧ search.header? = some header := by
  fun_induction next? grammar scanner with
  | case1 => cases h
  | case2 scanner short found search header' accepted =>
    cases h
    exact ⟨[], _, searches_of_find? short search, List.forall_mem_nil _, accepted⟩
  | case3 scanner short found search refused ih =>
    obtain ⟨passed, last, later, others, accepted⟩ := ih h
    have turned : Search.header? ⟨scanner.next, found⟩ = none := refused
    refine ⟨_ :: passed, last, ?_, List.forall_mem_cons.2 ⟨turned, others⟩, accepted⟩
    rw [searches_of_find? short search, later, List.cons_append]
  | case4 => cases h

theorem searches_of_next?_none (h : grammar.next? scanner = none) :
    ∀ search ∈ grammar.searches scanner, search.header? = none := by
  fun_induction next? grammar scanner with
  | case1 scanner short search =>
    rw [searches_of_find?_none search]
    exact List.forall_mem_nil _
  | case2 => cases h
  | case3 scanner short found search refused ih =>
    rw [searches_of_find? short search]
    exact List.forall_mem_cons.2 ⟨refused, ih h⟩
  | case4 scanner beyond =>
    rw [searches, if_neg beyond]
    exact List.forall_mem_nil _

theorem remaining_eq_filterMap (grammar : Grammar) (scanner : Scanner) :
    grammar.remaining scanner = (grammar.searches scanner).filterMap Search.header? := by
  fun_induction remaining grammar scanner with
  | case1 scanner done =>
    exact (List.filterMap_eq_nil_iff.2 (searches_of_next?_none done)).symm
  | case2 scanner header after taken progress ih =>
    obtain ⟨passed, search, found, others, accepted⟩ := searches_of_next? taken
    rw [found, List.filterMap_append, List.filterMap_eq_nil_iff.2 others, List.nil_append,
      List.filterMap_cons_some accepted, ih]

/-! ## Places of searches -/

/-- The scanner stands in a text, and searches from no byte before its place. -/
structure Scanner.On (scanner : Scanner) (text : List Char) : Prop where
  text_eq : scanner.place.text = text
  le_next : scanner.place.offset ≤ scanner.next
  length : scanner.length = width text

namespace Scanner

theorem on_start (text : List Char) : (start text).On text := ⟨rfl, Nat.le_refl _, rfl⟩

theorem On.cursor_text (h : scanner.On text) : scanner.cursor.text = text :=
  (scanner.place.reaches_seek scanner.next).text_eq.trans h.text_eq

theorem On.next_le (h : scanner.On text) (short : scanner.next ≤ scanner.length) :
    scanner.next ≤ scanner.cursor.offset := by
  refine Cursor.le_offset_seek ?_
  rw [h.text_eq, ← h.length]
  exact short

/-- Behind a match at its place or later the scanner stands in the same text. -/
theorem On.after (h : scanner.On text) (later : scanner.cursor.offset ≤ found.whole.stop.offset) :
    (scanner.after found).On text :=
  ⟨h.cursor_text, Nat.le_trans later (Nat.le_max_left _ _), h.length⟩

end Scanner

/-- A search finds a match of the pattern, at the byte where it began or behind it. -/
structure Finds (grammar : Grammar) (text : List Char) (search : Search) : Prop where
  matched : ∃ limit, grammar.header.matchAt? limit search.found.whole.start = some search.found
  text_eq : search.found.whole.start.text = text
  next_le : search.next ≤ search.start

namespace Finds

variable {search : Search}

theorem from_start (h : grammar.Finds text search) :
    search.found.From search.found.whole.start :=
  let ⟨_, matched⟩ := h.matched
  matchAt?_from matched

theorem start_le_stop (h : grammar.Finds text search) : search.start ≤ search.stop :=
  h.from_start.reaches.offset_le

end Finds

theorem Scanner.On.finds (h : scanner.On text) (short : scanner.next ≤ scanner.length)
    (search : grammar.header.find? scanner.cursor = some found) :
    grammar.Finds text ⟨scanner.next, found⟩ ∧ (scanner.after found).On text ∧
      scanner.cursor.Reaches found.whole.start := by
  obtain ⟨limit, w, place, passes, matched⟩ := find?_eq_some search
  have begins := matchAt?_from matched
  have later : scanner.cursor.Reaches found.whole.start := begins.start ▸ ⟨w, passes⟩
  have ends : found.whole.start.offset ≤ found.whole.stop.offset :=
    begins.start ▸ begins.reaches.offset_le
  refine ⟨⟨⟨limit, ?_⟩, later.text_eq.trans h.cursor_text, ?_⟩, ?_, later⟩
  · dsimp only
    rw [begins.start, matched]
  · exact Nat.le_trans (h.next_le short) later.offset_le
  · exact h.after (Nat.le_trans later.offset_le ends)

/-- Each search begins behind the byte where the one before began, and not before its match ends. -/
theorem searches_ascend (h : scanner.On text) :
    (∀ search ∈ grammar.searches scanner, grammar.Finds text search ∧
      scanner.next ≤ search.next) ∧
    (grammar.searches scanner).Pairwise fun a b => a.next < b.next ∧ a.stop ≤ b.next := by
  fun_induction searches grammar scanner with
  | case1 => exact ⟨List.forall_mem_nil _, .nil⟩
  | case2 scanner short found search ih =>
    obtain ⟨finds, on, -⟩ := h.finds short search
    obtain ⟨each, ascending⟩ := ih on
    have next := scanner.lt_next_after found
    have behind : found.whole.stop.offset ≤ (scanner.after found).next := Nat.le_max_left _ _
    refine ⟨List.forall_mem_cons.2 ⟨⟨finds, Nat.le_refl _⟩, fun other mem => ?_⟩,
      List.pairwise_cons.2 ⟨fun other mem => ?_, ascending⟩⟩
    · obtain ⟨finds', lower⟩ := each other mem
      exact ⟨finds', by omega⟩
    · obtain ⟨-, lower⟩ := each other mem
      exact ⟨by dsimp only; omega, Nat.le_trans behind lower⟩
  | case3 => exact ⟨List.forall_mem_nil _, .nil⟩

/-- Behind a search that stalls the next one finds the same match, at the byte where it begins. -/
theorem searches_after_stall (h : scanner.On text) (short : scanner.next ≤ scanner.length)
    (search : grammar.header.find? scanner.cursor = some found)
    (stalls : Search.Stalls ⟨scanner.next, found⟩) :
    ∃ rest, grammar.searches (scanner.after found) =
      ⟨found.whole.start.offset, found⟩ :: rest := by
  obtain ⟨finds, -, later⟩ := h.finds short search
  obtain ⟨behind, empty⟩ := stalls
  have next : (scanner.after found).next = found.whole.start.offset := by
    simp only [Search.start, Search.stop] at behind empty
    show max found.whole.stop.offset (scanner.next + 1) = _
    omega
  have cursor : (scanner.after found).cursor = found.whole.start := by
    rw [Scanner.cursor, next]
    exact Cursor.seek_eq later.text_eq later.offset_le
  have short' : (scanner.after found).next ≤ (scanner.after found).length := by
    show (scanner.after found).next ≤ scanner.length
    rw [next, h.length, ← h.cursor_text, ← later.text_eq]
    exact found.whole.start.offset_le_width
  have first := searches_of_find? short' (cursor.symm ▸ find?_again search)
  rw [next] at first
  exact ⟨_, first⟩

theorem searches_after_stalls (h : scanner.On text) {passed later : List Search} {search : Search}
    (split : grammar.searches scanner = passed ++ search :: later) (stalls : search.Stalls) :
    ∃ rest, later = ⟨search.start, search.found⟩ :: rest := by
  fun_induction searches grammar scanner generalizing passed with
  | case1 => cases passed <;> cases split
  | case2 scanner short found first ih =>
    obtain ⟨-, on, -⟩ := h.finds short first
    cases passed with
    | nil =>
      cases split
      exact searches_after_stall h short first stalls
    | cons other passed =>
      rw [List.cons_append, List.cons.injEq] at split
      exact ih on split.2
  | case3 => cases passed <;> cases split

/-- Matches never overlap, and two of them begin at different places unless the first stalls. -/
theorem matches_apart (h : scanner.On text) :
    (grammar.searches scanner).Pairwise fun a b =>
      a.stop ≤ b.start ∧ (a.start < b.start ∨ a.Stalls) := by
  obtain ⟨each, ascending⟩ := grammar.searches_ascend h
  refine ascending.imp_of_mem fun {a b} mem mem' ⟨further, behind⟩ => ?_
  have finds := (each a mem).1.start_le_stop
  have finds' := (each b mem').1.next_le
  refine ⟨by omega, ?_⟩
  by_cases same : a.start = b.start
  · exact .inr ⟨by omega, by omega⟩
  · exact .inl (by omega)

/-- Matches begin one behind the other exactly where no search stalls. -/
theorem starts_ascend_iff (h : scanner.On text) :
    ((grammar.searches scanner).Pairwise fun a b => a.start < b.start) ↔
      ∀ search ∈ grammar.searches scanner, ¬ search.Stalls := by
  constructor
  · intro ascending search mem stalls
    obtain ⟨passed, later, split⟩ := List.append_of_mem mem
    obtain ⟨rest, rfl⟩ := searches_after_stalls h split stalls
    rw [split] at ascending
    have behind := (List.pairwise_cons.1 (List.pairwise_append.1 ascending).2.1).1
    exact Nat.lt_irrefl search.start (behind ⟨search.start, search.found⟩ List.mem_cons_self)
  · intro moves
    refine (matches_apart h).imp_of_mem fun {a b} mem _ ⟨_, apart⟩ => ?_
    exact apart.resolve_right (moves a mem)

/-- Headers of matches at starts of lines begin at starts of lines too, none before the header line
of an earlier one, and behind that line if the earlier one has a name. -/
theorem headers_apart {document : Document} (anchored : grammar.header.AtLineStarts)
    (h : scanner.On document.chars) :
    (∀ header ∈ (grammar.searches scanner).filterMap Search.header?, header.Starts document) ∧
    ((grammar.searches scanner).filterMap Search.header?).Pairwise fun a b =>
      a.headerOffset ≤ b.offset ∧ (a.name ≠ "" → a.headerOffset < b.offset) := by
  obtain ⟨each, -⟩ := grammar.searches_ascend h
  have stands : ∀ search ∈ grammar.searches scanner, ∀ header, search.header? = some header →
      header.Starts document ∧ header.Within search.found := by
    intro search mem header accepted
    have finds := (each search mem).1
    obtain ⟨limit, matched⟩ := finds.matched
    exact Header.starts_and_within finds.from_start finds.text_eq (anchored matched) accepted
  constructor
  · intro header mem
    obtain ⟨search, listed, accepted⟩ := List.mem_filterMap.1 mem
    exact (stands search listed header accepted).1
  · rw [List.pairwise_filterMap]
    refine (matches_apart h).imp_of_mem fun {a b} mem mem' ⟨behind, _⟩ => ?_
    intro header accepted header' accepted'
    obtain ⟨-, within⟩ := stands a mem header accepted
    obtain ⟨-, within'⟩ := stands b mem' header' accepted'
    have first := Nat.le_trans behind within'.start_le
    exact ⟨Nat.le_trans within.le_stop first, fun named =>
      Nat.lt_of_lt_of_le (within.lt_stop named) first⟩

end Grammar

/-- **Matches never overlap, and are found twice only where a search stalls.** Whatever a grammar's
pattern is, its headers over a text are those of the matches of one search after the other. No match
begins before the end of an earlier one. One begins where an earlier one did only if the search for
the earlier one stalled. Behind a search that stalled the very next one finds the same match again;
what it stands for has no name. So matches begin one behind the other exactly where no search
stalls. If the pattern matches at starts of lines only, headers come in the order of the text, and
one with a name shares neither its offset nor its line with a later one. -/
theorem matches_follow_one_another (grammar : Grammar) (document : Document) :
    let searches := grammar.searches (.start document.chars)
    let headers := grammar.headers document.text
    headers = searches.filterMap Search.header? ∧
    (∀ search ∈ searches, search.next ≤ search.start ∧ search.start ≤ search.stop) ∧
    (searches.Pairwise fun a b => a.stop ≤ b.start ∧ (a.start < b.start ∨ a.Stalls)) ∧
    (∀ passed search later, searches = passed ++ search :: later → search.Stalls →
      (∃ rest, later = ⟨search.start, search.found⟩ :: rest) ∧
        ∀ header, search.header? = some header → header.name = "") ∧
    ((searches.Pairwise fun a b => a.start < b.start) ↔ ∀ search ∈ searches, ¬ search.Stalls) ∧
    (grammar.header.AtLineStarts →
      (∀ header ∈ headers, header.Starts document) ∧
      headers.Pairwise fun a b => a.headerOffset ≤ b.offset ∧ (a.name ≠ "" →
        a.offset < b.offset ∧ (document.lineAt a.headerOffset).number <
          (document.lineAt b.headerOffset).number)) := by
  intro searches headers
  have on := Grammar.Scanner.on_start document.chars
  have listed : headers = searches.filterMap Search.header? := grammar.remaining_eq_filterMap _
  obtain ⟨each, -⟩ := grammar.searches_ascend on
  refine ⟨listed, fun search mem => ?_, grammar.matches_apart on,
    fun passed search later split stalls => ?_, grammar.starts_ascend_iff on, fun anchored => ?_⟩
  · obtain ⟨finds, -⟩ := each search mem
    exact ⟨finds.next_le, finds.start_le_stop⟩
  · refine ⟨Grammar.searches_after_stalls on split stalls, fun header accepted => ?_⟩
    have mem : search ∈ searches := by
      rw [split]
      exact List.mem_append_right passed List.mem_cons_self
    have finds := (each search mem).1
    exact Header.name_of_empty finds.from_start stalls.2 accepted
  · obtain ⟨starts, apart⟩ := Grammar.headers_apart anchored on
    rw [listed]
    refine ⟨starts, apart.imp_of_mem fun {a b} mem mem' ⟨before, named⟩ => ?_⟩
    refine ⟨before, fun filled => ?_⟩
    have le := (starts a mem).le
    have le' := (starts b mem').le
    have lt := named filled
    exact ⟨by omega, (starts a mem).headerOffset.number_lt (starts b mem').headerOffset (by omega)⟩

/-- A grammar of words at starts of lines, with or without a comment line above. It takes an empty
line for the header of a target without a name. -/
def words : Grammar where
  runner := "words"
  includeDirective := "include"
  header := .seqs [.assert .lineStart,
    .optional (.seqs [.char '#',
      .group Grammar.commentGroup (.manyOf (CharSet.one '\n').compl), .char '\n']),
    .group Grammar.targetGroup (.manyOf (CharSet.empty.union (.span 'a' 'z')))]
  supportsDryRun := false

/-- A word below a comment, and the empty line at the end of the text, where a search stalls. -/
theorem word_above_empty_line :
    let document : Document := ⟨⟨"words"⟩, "# x\nab\n"⟩
    let searches := words.searches (.start document.chars)
    words.header.AtLineStarts ∧
      words.headers document.text = [⟨"ab", " x", 0, 4⟩, ⟨"", "", 7, 7⟩, ⟨"", "", 7, 7⟩] ∧
      (document.lineAt 4).number < (document.lineAt 7).number ∧
      ∃ passed search later, searches = passed ++ search :: later ∧ search.Stalls ∧
        search.start = 7 ∧ (∃ rest, later = ⟨search.start, search.found⟩ :: rest) ∧
        ∀ header, search.header? = some header → header.name = "" := by
  intro document searches
  obtain ⟨-, -, -, again, -, anchored⟩ := matches_follow_one_another words document
  have starts : words.header.AtLineStarts := atLineStarts_seq _
  have listed : words.headers document.text =
      [⟨"ab", " x", 0, 4⟩, ⟨"", "", 7, 7⟩, ⟨"", "", 7, 7⟩] := by
    decide +kernel
  obtain ⟨-, ascending⟩ := anchored starts
  rw [listed] at ascending
  have first := (List.pairwise_cons.1 ascending).1 _ List.mem_cons_self
  have places : searches.map (fun search => (search.next, search.start, search.stop)) =
      [(0, 0, 6), (6, 7, 7), (7, 7, 7)] := by
    decide +kernel
  obtain ⟨word, rest, split, -, places⟩ := List.map_eq_cons_iff.1 places
  obtain ⟨search, later, rfl, place, -⟩ := List.map_eq_cons_iff.1 places
  simp only [Prod.mk.injEq] at place
  have stalls : search.Stalls := ⟨by omega, by omega⟩
  exact ⟨starts, listed, (first.2 (by decide)).2, [word], search, later, split, stalls, by omega,
    again [word] search later split stalls⟩

/-- Behind a word and its line feed the search for the empty line stalls, so that the scanner finds
it twice and reports two headers at one offset. -/
theorem empty_line_found_twice :
    Grammar.new "words" "include" "(?m)^(?:#(?P<comment>.*)\n)?(?P<target>[a-z]*)" false =
        .ok words ∧
      words.header.AtLineStarts ∧
      ¬ ((words.searches (.start "a\n".toList)).Pairwise fun a b => a.start < b.start) ∧
      ¬ ((words.headers "a\n").Pairwise fun a b => a.offset ≠ b.offset) := by
  have starts : (words.searches (.start "a\n".toList)).map Search.start = [0, 2, 2] := by
    decide +kernel
  have listed : words.headers "a\n" = [⟨"a", "", 0, 0⟩, ⟨"", "", 2, 2⟩, ⟨"", "", 2, 2⟩] := by
    decide +kernel
  refine ⟨by decide +kernel, atLineStarts_seq _, fun ascending => ?_, ?_⟩
  · have below := List.pairwise_map.2 ascending
    rw [starts] at below
    revert below
    decide
  · rw [listed]
    decide

end BuildTargets
