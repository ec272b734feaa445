import BuildTargets.Proofs.Document.LineIndex
import BuildTargets.Proofs.Grammar.Searches

/-!
# Reading headers by bytes

Headers can be read off with offsets alone. A search is answered with the bytes where a match and
its groups begin and end, and what stands there is cut out of the text; every cut is checked. If
what is answered lies between characters, no cut fails, and the header is that of the match.
-/

namespace BuildTargets

open Text Pattern

/-! ## Places between characters -/

namespace Text

/-- The byte is between two characters of the text, or at one of its ends. -/
def IsBoundary (text : List Char) (offset : Nat) : Prop :=
  ∃ front back, text = front ++ back ∧ offset = width front

theorem IsBoundary.exists_cursor {text : List Char} {offset : Nat} (h : IsBoundary text offset) :
    ∃ here : Cursor, here.text = text ∧ here.offset = offset := by
  obtain ⟨front, back, rfl, rfl⟩ := h
  refine ⟨.between front.reverse back, ?_, width_reverse front⟩
  exact congrArg (· ++ back) front.reverse_reverse

namespace Cursor

variable {here there : Cursor}

theorem isBoundary (here : Cursor) : IsBoundary here.text here.offset :=
  ⟨here.behind.reverse, here.ahead, rfl, by rw [width_reverse, here.offset_eq]⟩

theorem Reaches.of_le (same : there.text = here.text) (le : here.offset ≤ there.offset) :
    here.Reaches there := by
  rw [← seek_eq same le]
  exact here.reaches_seek there.offset

end Cursor

theorem cutAt?_eq_some {offset : Nat} {text front back : List Char}
    (h : cutAt? offset text = some (front, back)) : text = front ++ back ∧ offset = width front := by
  fun_induction cutAt? offset text generalizing front with
  | case1 | case3 =>
    cases h
    exact ⟨rfl, rfl⟩
  | case2 | case4 => cases h
  | case5 offset c rest begun wide ih =>
    obtain ⟨⟨front', back'⟩, cut, same⟩ := Option.map_eq_some_iff.1 h
    cases same
    obtain ⟨rfl, offset_eq⟩ := ih cut
    refine ⟨rfl, ?_⟩
    rw [width_cons]
    omega

theorem slice?_eq_some {start stop : Nat} {text inside : List Char}
    (h : slice? text start stop = some inside) : ∃ before behind,
      text = before ++ (inside ++ behind) ∧ start = width before ∧ stop = start + width inside := by
  rw [slice?] at h
  split at h
  · next ordered =>
    obtain ⟨⟨before, rest⟩, cut, h⟩ := Option.bind_eq_some_iff.1 h
    obtain ⟨⟨inside', behind⟩, cut', same⟩ := Option.bind_eq_some_iff.1 h
    cases same
    obtain ⟨rfl, start_eq⟩ := cutAt?_eq_some cut
    obtain ⟨rfl, stop_eq⟩ := cutAt?_eq_some cut'
    exact ⟨before, behind, rfl, start_eq, by omega⟩
  · cases h

end Text

/-! ## Checked reading -/

/-- What can go wrong when a text is scanned by bytes. -/
inductive ScanFault where
  | badSlice (start stop : Nat)
  | searchBeyond (cursor : Nat)
deriving DecidableEq, Repr

namespace Bytewise

structure Extent where
  start : Nat
  stop : Nat
deriving DecidableEq, Repr

/-- The stretch begins and ends between characters of the text. -/
structure Extent.In (extent : Extent) (text : List Char) : Prop where
  le : extent.start ≤ extent.stop
  start : IsBoundary text extent.start
  stop : IsBoundary text extent.stop

/-- The answer to a search: where the match is, and its groups for the name and the comment. -/
structure Report where
  whole : Extent
  name : Option Extent
  comment : Option Extent
deriving DecidableEq, Repr

/-- The answer to a search from a byte on is good: nothing is found before the byte, and what is
found lies between characters. -/
structure Report.Sound (report : Report) (text : List Char) (cursor : Nat) : Prop where
  le : cursor ≤ report.whole.start
  whole : report.whole.In text
  name : ∀ extent, report.name = some extent → extent.In text
  comment : ∀ extent, report.comment = some extent → extent.In text

def slice (text : List Char) (start stop : Nat) : Except ScanFault (List Char) :=
  match slice? text start stop with
  | some inside => .ok inside
  | none => .error (.badSlice start stop)

/-- Where the line of a byte starts: behind the last line feed before the byte. -/
def lineStart (text : List Char) (offset : Nat) : Except ScanFault Nat := do
  let before ← slice text 0 offset
  return width (before.reverse.dropWhile (· != '\n'))

/-- Whether the line that starts at a byte goes on the line before. -/
def continues (text : List Char) (start : Nat) : Except ScanFault Bool :=
  if start = 0 then return false
  else do
    let before ← slice text 0 start
    return isContinuation before.reverse

def comment (text : List Char) (report : Report) (headerOffset : Nat) :
    Except ScanFault (Nat × String) :=
  match report.comment with
  | none => return (headerOffset, "")
  | some extent => do
    if ← continues text report.whole.start then return (headerOffset, "")
    else
      let chars ← slice text extent.start extent.stop
      return (report.whole.start, String.ofList chars)

/-- The header that an answer stands for. -/
def accept (text : List Char) (report : Report) : Except ScanFault (Option Header) :=
  match report.name with
  | none => return none
  | some name => do
    let rest ← slice text report.whole.stop (width text)
    if Grammar.isAssignment rest then return none
    else
      let headerOffset ← lineStart text name.start
      if ← continues text headerOffset then return none
      else
        let (offset, comment) ← comment text report headerOffset
        let chars ← slice text name.start name.stop
        return some ⟨String.ofList chars, comment, offset, headerOffset⟩

/-! ## Cutting at places between characters -/

section

variable {here there : Cursor}

theorem slice_append (before inside behind : List Char) :
    slice (before ++ (inside ++ behind)) (width before) (width before + width inside) =
      .ok inside := by
  rw [slice, slice?_append]

/-- What has been passed can be cut out. -/
theorem slice_reaches (h : here.Reaches there) :
    slice here.text here.offset there.offset = .ok (here.textTo there) := by
  obtain ⟨w, passes⟩ := h
  have inside := slice_append here.behind.reverse w there.ahead
  rw [width_reverse, ← here.offset_eq, ← passes.ahead] at inside
  rw [Cursor.textTo, passes.offset_eq, passes.ahead, Cursor.takeTo_width]
  exact inside

theorem slice_behind (here : Cursor) :
    slice here.text 0 here.offset = .ok here.behind.reverse := by
  have inside := slice_append [] here.behind.reverse here.ahead
  rwa [width_nil, Nat.zero_add, width_reverse, ← here.offset_eq] at inside

theorem slice_ahead (here : Cursor) :
    slice here.text here.offset (width here.text) = .ok here.ahead := by
  have inside := slice_append here.behind.reverse here.ahead []
  rw [List.append_nil, ← width_append, width_reverse, ← here.offset_eq] at inside
  exact inside

theorem lineStart_cursor (here : Cursor) :
    lineStart here.text here.offset = .ok here.lineStart := by
  rw [lineStart, slice_behind, here.lineStart_eq]
  dsimp only [bind, Except.bind, pure, Except.pure]
  rw [List.reverse_reverse]
  rfl

theorem continues_cursor (here : Cursor) :
    continues here.text here.offset = .ok (isContinuation here.behind) := by
  rw [continues]
  split
  · next begin =>
    have none : here.behind = [] := Cursor.width_eq_zero (here.offset_eq.symm.trans begin)
    rw [none]
    rfl
  · rw [slice_behind]
    dsimp only [bind, Except.bind, pure, Except.pure]
    rw [List.reverse_reverse]

end

end Bytewise

/-! ## Answers that report matches -/

open Bytewise

def Span.extent (span : Span) : Extent := ⟨span.start.offset, span.stop.offset⟩

structure Span.In (span : Span) (text : List Char) : Prop where
  text_eq : span.start.text = text
  reaches : span.start.Reaches span.stop

def Pattern.Found.report (found : Found) : Report where
  whole := found.whole.extent
  name := (found.group? Grammar.targetGroup).map Span.extent
  comment := (found.group? Grammar.commentGroup).map Span.extent

structure Pattern.Found.In (found : Found) (text : List Char) : Prop where
  whole : found.whole.In text
  group : ∀ {name span}, found.group? name = some span → span.In text

theorem Pattern.Found.From.within {found : Found} {here : Cursor} (h : found.From here) :
    found.In here.text where
  whole := ⟨congrArg Cursor.text h.start, h.start ▸ h.reaches⟩
  group := fun group => ⟨(h.group group).start.text_eq, (h.group group).inside⟩

/-- A match that is found from a place on lies in its text, at the place or behind it. -/
theorem Pattern.in_of_find? {pattern : Pattern} {here : Cursor} {found : Found}
    (h : pattern.find? here = some found) :
    found.In here.text ∧ here.offset ≤ found.whole.start.offset := by
  obtain ⟨limit, w, place, passes, matched⟩ := find?_eq_some h
  have begins := matchAt?_from matched
  refine ⟨passes.text_eq ▸ begins.within, ?_⟩
  rw [begins.start]
  exact Cursor.Reaches.offset_le ⟨w, passes⟩

section

variable {text : List Char} {extent : Extent} {span : Span} {report : Report} {found : Found}
  {cursor : Nat}

theorem Span.In.extent_in (h : span.In text) : span.extent.In text where
  le := h.reaches.offset_le
  start := h.text_eq ▸ span.start.isBoundary
  stop := h.text_eq ▸ h.reaches.text_eq ▸ span.stop.isBoundary

theorem Bytewise.Extent.In.exists_span (h : extent.In text) : ∃ span : Span, span.In text ∧
    span.extent = extent := by
  obtain ⟨here, text_eq, begins⟩ := h.start.exists_cursor
  obtain ⟨there, text_eq', ends⟩ := h.stop.exists_cursor
  refine ⟨⟨here, there⟩, ⟨text_eq, .of_le (text_eq'.trans text_eq.symm) ?_⟩, ?_⟩
  · rw [begins, ends]
    exact h.le
  · rw [Span.extent, begins, ends]

theorem exists_span? {extent? : Option Extent}
    (h : ∀ extent, extent? = some extent → extent.In text) :
    ∃ span? : Option Span, (∀ span, span? = some span → span.In text) ∧
      span?.map Span.extent = extent? := by
  cases extent? with
  | none => exact ⟨none, nofun, rfl⟩
  | some extent =>
    obtain ⟨span, inside, rfl⟩ := (h extent rfl).exists_span
    refine ⟨some span, fun other same => ?_, rfl⟩
    cases same
    exact inside

theorem Bytewise.Report.Sound.exists_found (h : report.Sound text cursor) :
    ∃ found : Found, found.In text ∧ found.report = report := by
  obtain ⟨whole, name, comment⟩ := report
  obtain ⟨span, inside, rfl⟩ := h.whole.exists_span
  obtain ⟨name?, names, rfl⟩ := exists_span? h.name
  obtain ⟨comment?, comments, rfl⟩ := exists_span? h.comment
  -- No other group is ever asked for, so a match with these two will do.
  refine ⟨⟨span, (name?.map (Grammar.targetGroup, ·)).toList ++
    (comment?.map (Grammar.commentGroup, ·)).toList⟩, ⟨inside, fun {group other} held => ?_⟩, ?_⟩
  · have mem := Found.mem_of_group? held
    rw [List.mem_append, Option.mem_toList, Option.mem_toList, Option.map_eq_some_iff,
      Option.map_eq_some_iff] at mem
    rcases mem with ⟨span, some, same⟩ | ⟨span, some, same⟩ <;> cases same
    · exact names _ some
    · exact comments _ some
  · cases name? <;> cases comment? <;> rfl

theorem Span.In.slice_eq (h : span.In text) :
    slice text span.extent.start span.extent.stop = .ok span.chars := by
  obtain ⟨rfl, reaches⟩ := h
  exact slice_reaches reaches

theorem exists_slice_iff :
    (∃ inside, slice text extent.start extent.stop = .ok inside) ↔ extent.In text := by
  constructor
  · intro ⟨inside, cut⟩
    rw [slice] at cut
    split at cut
    · next held =>
      cases cut
      obtain ⟨before, behind, rfl, start, stop⟩ := slice?_eq_some held
      refine ⟨?_, ⟨before, _, rfl, start⟩, before ++ inside, behind, ?_, ?_⟩
      · rw [stop]
        exact Nat.le_add_right _ _
      · rw [List.append_assoc]
      · rw [stop, start, width_append]
    · cases cut
  · intro inside
    obtain ⟨span, within, rfl⟩ := inside.exists_span
    exact ⟨_, within.slice_eq⟩

theorem Span.In.lineStart_eq (h : span.In text) :
    lineStart text span.extent.start = .ok span.start.lineStart :=
  h.text_eq ▸ lineStart_cursor span.start

theorem Span.In.continues_eq (h : span.In text) :
    continues text span.extent.start = .ok (isContinuation span.start.behind) :=
  h.text_eq ▸ continues_cursor span.start

theorem Span.In.continues_lineStart (h : span.In text) :
    continues text span.start.lineStart = .ok (isContinuation span.start.beforeLine) := by
  have before := continues_cursor span.start.lineBegin
  rwa [← span.start.lineBegin_reaches.text_eq, h.text_eq, span.start.offset_lineBegin] at before

theorem Span.In.rest_eq (h : span.In text) :
    slice text span.extent.stop (width text) = .ok span.stop.ahead :=
  h.text_eq ▸ h.reaches.text_eq ▸ slice_ahead span.stop

theorem Pattern.Found.In.comment_eq (h : found.In text) (headerOffset : Nat) :
    comment text found.report headerOffset =
      .ok (match found.group? Grammar.commentGroup with
        | none => (headerOffset, "")
        | some span =>
          if isContinuation found.whole.start.behind then (headerOffset, "")
          else (found.whole.start.offset, span.text)) := by
  rw [comment, Found.report]
  cases group : found.group? Grammar.commentGroup with
  | none => rfl
  | some span =>
    simp only [Option.map_some, h.whole.continues_eq, (h.group group).slice_eq, bind,
      Except.bind, pure, Except.pure]
    split <;> rfl

theorem Pattern.Found.In.accept_eq (h : found.In text) :
    accept text found.report = .ok (Grammar.accept? found) := by
  rw [accept, Grammar.accept?]
  cases target : found.group? Grammar.targetGroup with
  | none =>
    have unnamed : found.report.name = none := congrArg (Option.map Span.extent) target
    rw [unnamed]
    rfl
  | some name =>
    have named : found.report.name = some name.extent := congrArg (Option.map Span.extent) target
    have inside := h.group target
    have rest : slice text found.report.whole.stop (width text) = .ok found.whole.stop.ahead :=
      h.whole.rest_eq
    simp only [named, rest, inside.lineStart_eq, inside.continues_lineStart, h.comment_eq,
      inside.slice_eq, bind, Except.bind, pure, Except.pure]
    split
    · rfl
    · split
      · rfl
      · cases found.group? Grammar.commentGroup with
        | none => rfl
        | some span =>
          dsimp only
          split <;> rfl

end

end BuildTargets
