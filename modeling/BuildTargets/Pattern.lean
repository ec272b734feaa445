import BuildTargets.Pattern.CharSet
import BuildTargets.Text.Cursor

/-!
# Patterns

Patterns describe stretches of text. Where a pattern can match in several ways, alternatives are
tried from left to right and repetitions from the most rounds down, or from the fewest up, and
the first way that lets the rest of the pattern match is taken. `Pattern.run` is this search,
written with the rest of the pattern as a continuation; `Pattern.find?` looks for the first place
where it succeeds.
-/

namespace BuildTargets

open Text

/-- A condition on the place between two characters. -/
inductive Boundary where
  | textStart
  | textEnd
  | lineStart
  | lineEnd
  | returnLineStart
  | returnLineEnd
  | wordEdge (letters : CharSet)
  | wordInner (letters : CharSet)
  | wordStart (letters : CharSet)
  | wordEnd (letters : CharSet)
  | wordStartHalf (letters : CharSet)
  | wordEndHalf (letters : CharSet)
deriving DecidableEq, Repr, Inhabited

/-- Whether a neighbouring character exists and lies in a set. -/
def CharSet.holds (set : CharSet) (neighbour : Option Char) : Bool :=
  match neighbour with
  | some c => set.contains c
  | none => false

namespace Boundary

/-- Whether a place meets the condition. Lines start behind a line feed; where carriage returns
end lines too, no line starts or ends between a carriage return and its line feed. -/
def holds (boundary : Boundary) (here : Cursor) : Bool :=
  let before := here.behind.head?
  let after := here.ahead.head?
  match boundary with
  | textStart => before.isNone
  | textEnd => after.isNone
  | lineStart => before.isNone || before == some '\n'
  | lineEnd => after.isNone || after == some '\n'
  | returnLineStart =>
    before.isNone || before == some '\n' || (before == some '\r' && after != some '\n')
  | returnLineEnd =>
    after.isNone || after == some '\r' || (after == some '\n' && before != some '\r')
  | wordEdge letters => letters.holds before != letters.holds after
  | wordInner letters => letters.holds before == letters.holds after
  | wordStart letters => !letters.holds before && letters.holds after
  | wordEnd letters => letters.holds before && !letters.holds after
  | wordStartHalf letters => !letters.holds before
  | wordEndHalf letters => !letters.holds after

end Boundary

/-- A description of stretches of text. `group` remembers what its body matched. -/
inductive Pattern where
  | empty
  | one (set : CharSet)
  | assert (boundary : Boundary)
  | group (name : String) (body : Pattern)
  | seq (first second : Pattern)
  | alt (first second : Pattern)
  | rep (least : Nat) (most : Option Nat) (greedy : Bool) (body : Pattern)
deriving DecidableEq, Repr, Inhabited

structure Span where
  start : Cursor
  stop : Cursor

def Span.chars (span : Span) : List Char := span.start.textTo span.stop

def Span.text (span : Span) : String := String.ofList span.chars

/-- How far a match has got: the place in the text, and what the groups matched last, the latest
first. -/
structure Progress where
  here : Cursor
  groups : List (String × Span)

namespace Pattern

/-- A way to go on from some progress: it either ends in a result or fails. -/
abbrev Matcher (α : Type) := Progress → (Progress → Option α) → Option α

def orElse {α : Type} (first : Option α) (second : Unit → Option α) : Option α :=
  match first with
  | some result => some result
  | none => second ()

def exactly {α : Type} (round : Matcher α) : Nat → Matcher α
  | 0, now, k => k now
  | count + 1, now, k => round now fun next => exactly round count next k

def atMost {α : Type} (round : Matcher α) (greedy : Bool) : Nat → Matcher α
  | 0, now, k => k now
  | count + 1, now, k =>
    let again := fun () => round now fun next => atMost round greedy count next k
    if greedy then orElse (again ()) fun _ => k now else orElse (k now) again

/-- Any number of further rounds. Each takes a character at least: one that does not would lead
back to where it began. `limit` is above the number of characters ahead. -/
def further {α : Type} (round : Matcher α) (greedy : Bool) : (limit : Nat) → Matcher α
  | 0, now, k => k now
  | limit + 1, now, k =>
    let again := fun () => round now fun next =>
      if next.here.offset = now.here.offset then none else further round greedy limit next k
    if greedy then orElse (again ()) fun _ => k now else orElse (k now) again

/-- At least one round. If the first one takes no character, it is the last. -/
def atLeastOne {α : Type} (round : Matcher α) (greedy : Bool) (limit : Nat) : Matcher α :=
  fun now k => round now fun next =>
    if next.here.offset = now.here.offset then k next else further round greedy limit next k

def many {α : Type} (round : Matcher α) (greedy : Bool) (limit : Nat) : Matcher α :=
  fun now k =>
    let again := fun () => atLeastOne round greedy limit now k
    if greedy then orElse (again ()) fun _ => k now else orElse (k now) again

/-- Between `least` and `most` rounds. -/
def rounds {α : Type} (round : Matcher α) (limit least : Nat) (most : Option Nat)
    (greedy : Bool) : Matcher α :=
  match most, least with
  | some most, least => fun now k =>
    exactly round least now fun next => atMost round greedy (most - least) next k
  | none, 0 => many round greedy limit
  | none, least + 1 => fun now k =>
    exactly round least now fun next => atLeastOne round greedy limit next k

/-- Matches a pattern from some progress on and hands what it reached to the continuation;
`limit` is above the number of characters ahead. -/
def run {α : Type} (limit : Nat) : Pattern → Matcher α
  | empty, now, k => k now
  | one set, now, k =>
    match now.here.ahead with
    | [] => none
    | c :: rest => if set.contains c then k { now with here := now.here.step c rest } else none
  | assert boundary, now, k => if boundary.holds now.here then k now else none
  | group name body, now, k =>
    run limit body now fun next =>
      k { next with groups := (name, ⟨now.here, next.here⟩) :: next.groups }
  | seq first second, now, k => run limit first now fun next => run limit second next k
  | alt first second, now, k =>
    orElse (run limit first now k) fun _ => run limit second now k
  | rep least most greedy body, now, k =>
    rounds (run limit body) limit least most greedy now k

/-- A match: the stretch of the whole pattern and what the groups matched. -/
structure Found where
  whole : Span
  groups : List (String × Span)

def Found.group? (found : Found) (name : String) : Option Span := found.groups.lookup name

def matchAt? (pattern : Pattern) (limit : Nat) (here : Cursor) : Option Found :=
  pattern.run limit ⟨here, []⟩ fun reached => some ⟨⟨here, reached.here⟩, reached.groups⟩

/-- The first match at `here` or later, where `ahead` is what lies before `here`. -/
def findFrom? (pattern : Pattern) (limit : Nat) (here : Cursor) : List Char → Option Found
  | [] => pattern.matchAt? limit here
  | c :: rest =>
    orElse (pattern.matchAt? limit here) fun _ =>
      pattern.findFrom? limit (here.step c rest) rest

/-- The first match at a place or later in its text. -/
def find? (pattern : Pattern) (here : Cursor) : Option Found :=
  pattern.findFrom? (here.ahead.length + 1) here here.ahead

def groupNames : Pattern → List String
  | group name body => name :: body.groupNames
  | seq first second => first.groupNames ++ second.groupNames
  | alt first second => first.groupNames ++ second.groupNames
  | rep _ _ _ body => body.groupNames
  | _ => []

/-! ## Building patterns -/

def seqs : List Pattern → Pattern
  | [] => empty
  | [pattern] => pattern
  | pattern :: rest => seq pattern (seqs rest)

def char (c : Char) : Pattern := one (CharSet.one c)

def literal (text : List Char) : Pattern := seqs (text.map char)

/-- Any number of characters of a set, as many as possible. -/
def manyOf (set : CharSet) : Pattern := rep 0 none true (one set)

/-- At least one character of a set, as many as possible. -/
def someOf (set : CharSet) : Pattern := rep 1 none true (one set)

/-- A pattern or nothing, the pattern first. -/
def optional (pattern : Pattern) : Pattern := rep 0 (some 1) true pattern

/-- A pattern repeated; no round at all forgets the groups of the pattern. -/
def repeated (least : Nat) (most : Option Nat) (greedy : Bool) (body : Pattern) : Pattern :=
  if least = 0 ∧ most = some 0 then empty else rep least most greedy body

end Pattern

end BuildTargets
