import BuildTargets.Document
import BuildTargets.Grammar
import BuildTargets.Proofs.Text.Place

/-!
# Headers, line by line

Which lines of a text are headers of targets, and what their comments are, said without patterns
and without a search. A header line is a name, what its runner allows behind a name, and a colon.
It counts unless it is an assignment or goes on the line above. The comment is the line above, if
that begins with `#`, has no carriage return but one at its end, and does not itself go on the
line above it.
-/

namespace BuildTargets

open Text

def isGap (c : Char) : Bool := c == ' ' || c == '\t'

/-- Letters and digits of ASCII, `_` and `-`. -/
def isNameChar (c : Char) : Bool := c.isAlphanum || c == '_' || c == '-'

/-- What may stand in the parameters of a recipe: they end at a colon or with the line. -/
def isParameterChar (c : Char) : Bool := c != ':' && c != '\r' && c != '\n'

/-- Whether the line below goes on this one. -/
def goesOn (line : List Char) : Bool := (dropReturn line).getLast? == some '\\'

/-- Whether a line goes on the nearest of the lines above it. -/
def isContinued (above : List (List Char)) : Bool := above.head?.any goesOn

/-- The offset of a line: each line above takes its own width and that of its line feed. -/
def lineOffset : List (List Char) → Nat
  | [] => 0
  | line :: above => width line + 1 + lineOffset above

def commentText? : List Char → Option (List Char)
  | '#' :: text =>
    if '\r' ∈ dropReturn text then none
    else some (dropLastWhile isGap ((dropReturn text).dropWhile isGap))
  | _ => none

def commentAbove? : List (List Char) → Option (List Char)
  | [] => none
  | line :: above => if isContinued above then none else commentText? line

/-- How a runner writes its headers: whether `@` may stand before the name, and what is left of a
line behind all that may stand between the name and the colon. -/
structure HeaderRule where
  quiet : Bool
  pass : List Char → List Char

/-- Makefiles allow a gap before the colon. -/
def makeRule : HeaderRule := ⟨false, List.dropWhile isGap⟩

/-- Justfiles allow parameters before the colon, behind a gap. -/
def justRule : HeaderRule :=
  ⟨true, fun rest => if rest.head?.any isGap then rest.dropWhile isParameterChar else rest⟩

namespace HeaderRule

/-- A line without the `@` before a name. -/
def unmarked (rule : HeaderRule) : List Char → List Char
  | '@' :: line => if rule.quiet then line else '@' :: line
  | line => line

/-- The name that a line declares and what follows its colon. -/
def parts? (rule : HeaderRule) (line : List Char) : Option (List Char × List Char) :=
  let line := rule.unmarked line
  let name := line.takeWhile isNameChar
  match rule.pass (line.dropWhile isNameChar) with
  | ':' :: body => if name = [] then none else some (name, body)
  | _ => none

/-- The header on a line, if these are the lines above it, the nearest first. -/
def header? (rule : HeaderRule) (above : List (List Char)) (line : List Char) : Option Header :=
  match rule.parts? line with
  | none => none
  | some (name, body) =>
    if ['='] <+: body ∨ [':', '='] <+: body ∨ isContinued above then none
    else match commentAbove? above with
    | none => some ⟨String.ofList name, "", lineOffset above, lineOffset above⟩
    | some text =>
      some ⟨String.ofList name, String.ofList text, lineOffset above.tail, lineOffset above⟩

/-- The headers of a text: each line is looked at with the lines above it. -/
def headers (rule : HeaderRule) (text : String) : List Header :=
  let lines := split '\n' text.toList
  lines.zipIdx.filterMap fun numbered =>
    rule.header? (lines.take numbered.2).reverse numbered.1

/-- The headers on some lines that stand below others. -/
def headersBelow (rule : HeaderRule) (above : List (List Char)) : List (List Char) → List Header
  | [] => []
  | line :: below => (rule.header? above line).toList ++ rule.headersBelow (line :: above) below

theorem headersBelow_eq (rule : HeaderRule) (above todo : List (List Char)) :
    rule.headersBelow above todo = (todo.zipIdx above.length).filterMap fun numbered =>
      rule.header? ((above.reverse ++ todo).take numbered.2).reverse numbered.1 := by
  induction todo generalizing above with
  | nil => rfl
  | cons line below ih =>
    have lines : (line :: above).reverse ++ below = above.reverse ++ line :: below := by simp
    have here : ((above.reverse ++ line :: below).take above.length).reverse = above := by
      rw [← List.length_reverse, List.take_left, List.reverse_reverse]
    rw [headersBelow, ih, lines, List.length_cons, List.zipIdx_cons, List.filterMap_cons, here]
    cases rule.header? above line <;> rfl

theorem headers_eq_below (rule : HeaderRule) (text : String) :
    rule.headers text = rule.headersBelow [] (split '\n' text.toList) :=
  (rule.headersBelow_eq [] _).symm

theorem parts?_eq_some_iff {rule : HeaderRule} {line name body : List Char} :
    rule.parts? line = some (name, body) ↔ name ≠ [] ∧
      (rule.unmarked line).takeWhile isNameChar = name ∧
      rule.pass ((rule.unmarked line).dropWhile isNameChar) = ':' :: body := by
  unfold parts?
  dsimp only
  split
  · next later colon =>
    split
    · next unnamed =>
      rw [unnamed]
      constructor
      · intro h
        cases h
      · rintro ⟨named, rfl, -⟩
        exact absurd rfl named
    · next named =>
      rw [colon, Option.some.injEq, Prod.mk.injEq, List.cons.injEq]
      constructor
      · rintro ⟨rfl, rfl⟩
        exact ⟨named, rfl, rfl, rfl⟩
      · rintro ⟨-, rfl, -, rfl⟩
        exact ⟨rfl, rfl⟩
  · next other =>
    constructor
    · intro h
      cases h
    · rintro ⟨-, -, colon⟩
      exact absurd colon (other body)

theorem unmarked_plain (pass : List Char → List Char) (line : List Char) :
    unmarked ⟨false, pass⟩ line = line := by
  unfold unmarked
  split <;> rfl

theorem parts?_plain {pass : List Char → List Char} {line name body : List Char} :
    parts? ⟨false, pass⟩ line = some (name, body) ↔ name ≠ [] ∧
      line.takeWhile isNameChar = name ∧ pass (line.dropWhile isNameChar) = ':' :: body := by
  rw [parts?_eq_some_iff, unmarked_plain]

theorem parts?_mark (pass : List Char → List Char) (line : List Char) :
    parts? ⟨true, pass⟩ ('@' :: line) = parts? ⟨false, pass⟩ line := by
  unfold parts?
  rw [unmarked_plain, show unmarked ⟨true, pass⟩ ('@' :: line) = line from rfl]

theorem parts?_no_mark (pass : List Char → List Char) {line : List Char}
    (h : line.head? ≠ some '@') : parts? ⟨true, pass⟩ line = parts? ⟨false, pass⟩ line := by
  have same : unmarked ⟨true, pass⟩ line = line := by
    unfold unmarked
    split
    · exact absurd rfl h
    · rfl
  unfold parts?
  rw [unmarked_plain, same]

theorem parts?_plain_mark (pass : List Char → List Char) (line : List Char) :
    parts? ⟨false, pass⟩ ('@' :: line) = none := by
  cases h : parts? ⟨false, pass⟩ ('@' :: line) with
  | none => rfl
  | some parts => exact absurd (parts?_plain.1 h).2.1.symm (parts?_plain.1 h).1

end HeaderRule

/-! ## Lines and places -/

theorem lineOffset_cons (line : List Char) (above : List (List Char)) :
    lineOffset (line :: above) = width line + 1 + lineOffset above := rfl

theorem width_behindLine (above : List (List Char)) :
    width (behindLine above) = lineOffset above := by
  induction above with
  | nil => rfl
  | cons line above ih =>
    rw [behindLine_cons, width_cons, width_append, width_reverse, ih, lineOffset_cons,
      show '\n'.utf8Size = 1 from rfl]
    omega

theorem dropReturn_eq (line : List Char) :
    dropReturn line = line ∧ line.getLast? ≠ some '\r' ∨ line = dropReturn line ++ ['\r'] := by
  unfold dropReturn
  split
  · next h =>
    obtain ⟨before, rfl⟩ := List.getLast?_eq_some_iff.1 h
    exact .inr (by rw [List.dropLast_concat])
  · next h => exact .inl ⟨rfl, h⟩

theorem line_eq_dropReturn_append (line : List Char) :
    ∃ ending, line = dropReturn line ++ ending ∧ (ending = [] ∨ ending = ['\r']) := by
  rcases dropReturn_eq line with ⟨same, -⟩ | ends
  · exact ⟨[], by rw [same, List.append_nil], .inl rfl⟩
  · exact ⟨['\r'], ends, .inr rfl⟩

theorem mem_of_mem_dropReturn {line : List Char} {c : Char} (h : c ∈ dropReturn line) :
    c ∈ line := by
  obtain ⟨ending, split, -⟩ := line_eq_dropReturn_append line
  rw [split]
  exact List.mem_append_left ending h

theorem dropReturn_append (w : List Char) {rest : List Char} (h : rest ≠ []) :
    dropReturn (w ++ rest) = w ++ dropReturn rest := by
  have same : (w ++ rest).getLast? = rest.getLast? := by
    rw [List.getLast?_append, List.getLast?_eq_some_getLast h, Option.some_or]
  unfold dropReturn
  rw [same, List.dropLast_append_of_ne_nil h]
  split <;> rfl

theorem dropReturn_of_not_mem {line : List Char} (h : '\r' ∉ line) : dropReturn line = line := by
  unfold dropReturn
  rw [if_neg]
  intro last
  exact h (List.mem_of_getLast? last)

/-- A carriage return on a line but at its end stays one behind what has none. -/
theorem return_mem_dropReturn {w rest : List Char} (h : '\r' ∈ dropReturn (w ++ rest))
    (clear : '\r' ∉ w) : '\r' ∈ dropReturn rest := by
  by_cases empty : rest = []
  · rw [empty, List.append_nil] at h
    exact absurd (mem_of_mem_dropReturn h) clear
  · rw [dropReturn_append w empty, List.mem_append] at h
    exact h.resolve_left clear

theorem dropReturn_append_ending {w ending : List Char} (clear : '\r' ∉ w)
    (ends : ending = [] ∨ ending = ['\r']) : dropReturn (w ++ ending) = w := by
  rcases ends with rfl | rfl
  · rw [List.append_nil, dropReturn_of_not_mem clear]
  · rw [dropReturn_append w (List.cons_ne_nil _ _)]
    exact List.append_nil w

theorem dropReturn_eq_nil_iff {line : List Char} :
    dropReturn line = [] ↔ line = [] ∨ line = ['\r'] := by
  constructor
  · intro h
    rcases dropReturn_eq line with ⟨same, -⟩ | ends
    · exact .inl (by rw [← same, h])
    · exact .inr (by rw [h] at ends; exact ends)
  · rintro (rfl | rfl) <;> rfl

/-- The character before a place of a line, unless it is a line feed, is on the line. -/
theorem head?_inLine {c : Char} (hc : c ≠ '\n') (w : List Char) (above : List (List Char)) :
    (w.reverse ++ behindLine above).head? = some c ↔ w.getLast? = some c := by
  rw [List.head?_append, List.head?_reverse]
  cases w.getLast? with
  | some d => rfl
  | none => cases above <;> simp [Ne.symm hc]

theorem isContinuation_behindLine (above : List (List Char)) :
    isContinuation (behindLine above) = isContinued above := by
  cases above with
  | nil => rfl
  | cons line above =>
    rw [isContinued, List.head?_cons, Option.any_some, goesOn, Bool.eq_iff_iff, beq_iff_eq,
      ← head?_inLine (by decide) _ above, behindLine_cons]
    rcases dropReturn_eq line with ⟨same, last⟩ | ends
    · rw [same]
      rw [Ne, ← head?_inLine (by decide) line above] at last
      generalize line.reverse ++ behindLine above = before at last
      cases before with
      | nil => simp [isContinuation]
      | cons c before =>
        have hc : c ≠ '\r' := by simpa using last
        simp [isContinuation, hc]
    · generalize dropReturn line = front at ends
      subst ends
      simp [isContinuation]

/-! ## Comment lines -/

theorem ne_return_of_isGap {c : Char} (h : isGap c = true) : c ≠ '\r' := by
  rintro rfl
  exact absurd h (by decide)

theorem not_of_head?_dropWhile {p : Char → Bool} {w : List Char} {c : Char}
    (h : (w.dropWhile p).head? = some c) : p c = false := by
  have stop := List.head?_dropWhile_not p w
  rwa [h] at stop

/-- Gaps fill a line up to its end, if what is left behind those at its start is its end. -/
theorem all_isGap_iff (line : List Char) :
    (dropReturn line).all isGap = true ↔ dropReturn (line.dropWhile isGap) = [] := by
  rw [List.all_eq_true]
  have gaps : ∀ c ∈ line.takeWhile isGap, isGap c = true := List.all_eq_true.1 List.all_takeWhile
  have split : line.takeWhile isGap ++ line.dropWhile isGap = line :=
    List.takeWhile_append_dropWhile
  by_cases rest : line.dropWhile isGap = []
  · rw [rest, List.append_nil] at split
    rw [split] at gaps
    rw [rest]
    exact ⟨fun _ => rfl, fun _ c hc => gaps c (mem_of_mem_dropReturn hc)⟩
  · have front : dropReturn line = line.takeWhile isGap ++ dropReturn (line.dropWhile isGap) := by
      rw [← dropReturn_append _ rest, split]
    rw [front]
    constructor
    · intro all
      cases left : dropReturn (line.dropWhile isGap) with
      | nil => rfl
      | cons c later =>
        obtain ⟨ending, whole, -⟩ := line_eq_dropReturn_append (line.dropWhile isGap)
        have stop : isGap c = false :=
          not_of_head?_dropWhile (w := line) (by rw [whole, left]; rfl)
        rw [all c (by simp [left])] at stop
        cases stop
    · intro left c hc
      rw [left, List.append_nil] at hc
      exact gaps c hc

/-- The parts of a comment line: gaps on both sides of its text, and what ends it. -/
structure IsComment (line before text behind ending : List Char) : Prop where
  line_eq : line = '#' :: (before ++ (text ++ (behind ++ ending)))
  before_gap : ∀ c ∈ before, isGap c = true
  behind_gap : ∀ c ∈ behind, isGap c = true
  ending : ending = [] ∨ ending = ['\r']
  no_return : '\r' ∉ text
  first : ∀ c, (text ++ behind).head? = some c → isGap c = false
  last : ∀ c, text.getLast? = some c → isGap c = false

/-- What ends in no gap has no end that is all gaps. -/
theorem not_all_isGap {w rest : List Char} {c : Char}
    (last : ∀ d, (w ++ c :: rest).getLast? = some d → isGap d = false) (after : List Char) :
    ¬ (c :: rest ++ after).all isGap = true := by
  intro all
  have ends : (w ++ c :: rest).getLast? = some ((c :: rest).getLast (List.cons_ne_nil c rest)) := by
    rw [List.getLast?_append, List.getLast?_eq_some_getLast (List.cons_ne_nil c rest),
      Option.some_or]
  have gap := List.all_eq_true.1 all _
    (List.mem_append_left after (List.getLast_mem (List.cons_ne_nil c rest)))
  rw [last _ ends] at gap
  cases gap

theorem commentText?_eq_none_iff {text : List Char} :
    commentText? ('#' :: text) = none ↔ '\r' ∈ dropReturn text := by
  rw [commentText?]
  split <;> simp_all

theorem commentText?_of_parts? {rule : HeaderRule} {line name body : List Char}
    (h : rule.parts? line = some (name, body)) : commentText? line = none := by
  unfold commentText?
  split
  · next text =>
    obtain ⟨named, taken, -⟩ := HeaderRule.parts?_eq_some_iff.1 h
    exact absurd taken.symm named
  · rfl

theorem isComment_of_commentText? {line text : List Char} (h : commentText? line = some text) :
    ∃ before behind ending, IsComment line before text behind ending := by
  unfold commentText? at h
  split at h
  · next later =>
    split at h
    · cases h
    · next clear =>
      obtain ⟨ending, split, ending_eq⟩ := line_eq_dropReturn_append later
      generalize dropReturn later = front at *
      have back : dropLastWhile isGap (front.dropWhile isGap) ++
          ((front.dropWhile isGap).reverse.takeWhile isGap).reverse = front.dropWhile isGap := by
        rw [dropLastWhile, ← List.reverse_append, List.takeWhile_append_dropWhile,
          List.reverse_reverse]
      cases h
      refine ⟨front.takeWhile isGap, ((front.dropWhile isGap).reverse.takeWhile isGap).reverse,
        ending, ?_, List.all_eq_true.1 List.all_takeWhile, ?_, ending_eq, ?_, ?_, ?_⟩
      · rw [← List.append_assoc (dropLastWhile _ _), back, ← List.append_assoc,
          List.takeWhile_append_dropWhile, split]
      · intro c hc
        rw [List.mem_reverse] at hc
        exact List.all_eq_true.1 List.all_takeWhile c hc
      · intro inside
        have : '\r' ∈ front.dropWhile isGap := back ▸ List.mem_append_left _ inside
        exact clear ((List.dropWhile_suffix isGap).mem this)
      · intro c hc
        rw [back] at hc
        exact not_of_head?_dropWhile hc
      · intro c hc
        rw [dropLastWhile, List.getLast?_reverse] at hc
        exact not_of_head?_dropWhile hc
  · cases h

end BuildTargets
