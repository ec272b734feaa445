/-!
# Globs

A glob describes names and paths: `?` stands for one character, `*` for any number of them,
`[...]` and `[!...]` for one character in or outside a class, and `**`, which takes a whole
component, for any number of components. `matchTokens` is the meaning of a glob; where
separators are literal, only `**` reaches across them.
-/

namespace BuildTargets

inductive GlobFault where
  | wildcards (position : Nat)
  | recursion (position : Nat)
  | range (position : Nat)
deriving DecidableEq, Repr

/-- The fault in words, with the character it was found near. -/
def GlobFault.message : GlobFault → String
  | wildcards position => near position "wildcards are either regular `*` or recursive `**`"
  | recursion position => near position "recursive wildcards must form a single path component"
  | range position => near position "invalid range pattern"
where
  near (position : Nat) (text : String) : String :=
    "Pattern syntax error near position " ++ toString position ++ ": " ++ text

namespace Glob

/-- A part of a glob. Classes list their ranges of characters. -/
inductive Token where
  | char (c : Char)
  | any
  | star
  | deep
  | within (ranges : List (Char × Char))
  | without (ranges : List (Char × Char))
deriving DecidableEq, Repr, Inhabited

end Glob

/-- A glob that was read. -/
structure Glob where
  tokens : List Glob.Token
deriving DecidableEq, Repr, Inhabited

namespace Glob

/-! ## Reading -/

def ranges : List Char → List (Char × Char)
  | low :: '-' :: high :: rest => (low, high) :: ranges rest
  | c :: rest => (c, c) :: ranges rest
  | [] => []

/-- Adds `**` to tokens read, the last one first; it counts once where it stands behind itself. -/
def pushDeep (tokens : List Token) : List Token :=
  if tokens.length > 1 && tokens.head? == some .deep then tokens else .deep :: tokens

/-- The text up to the next closing bracket, and what follows that bracket. -/
def toBracket (chars : List Char) : Option (List Char × List Char) :=
  match chars.dropWhile (· != ']') with
  | [] => none
  | _ :: after => some (chars.takeWhile (· != ']'), after)

/-- A class behind its opening bracket, and what follows it. The first character of a class is a
member even if it is a bracket. -/
def readClass (chars : List Char) : Option (Token × List Char) :=
  match chars with
  | '!' :: c :: rest =>
    (toBracket rest).map fun (members, after) => (.without (ranges (c :: members)), after)
  | '!' :: [] => none
  | c :: rest =>
    (toBracket rest).map fun (members, after) => (.within (ranges (c :: members)), after)
  | [] => none

theorem toBracket_length {chars members after : List Char}
    (h : toBracket chars = some (members, after)) : after.length < chars.length := by
  unfold toBracket at h
  split at h
  · simp at h
  · rename_i c rest hd
    have h1 := (List.dropWhile_sublist (l := chars) (p := (· != ']'))).length_le
    simp only [Option.some.injEq, Prod.mk.injEq] at h
    obtain ⟨_, rfl⟩ := h
    rw [hd] at h1
    simp only [List.length_cons] at h1
    omega

theorem readClass_length {chars after : List Char} {token : Token}
    (h : readClass chars = some (token, after)) : after.length < chars.length := by
  unfold readClass at h
  split at h
  all_goals try simp only [Option.map_eq_some_iff, Prod.exists, Prod.mk.injEq] at h
  · obtain ⟨_, _, hb, _, rfl⟩ := h
    have := toBracket_length hb
    simp; omega
  · simp at h
  · obtain ⟨_, _, hb, _, rfl⟩ := h
    have := toBracket_length hb
    simp; omega
  · simp at h

/-- Reads what is left of a glob: `position` counts the characters before it, `previous` is the
last of them, and `tokens` holds what they were read as, the last one first. -/
def readFrom (position : Nat) (previous : Option Char) (tokens : List Token)
    (chars : List Char) : Except GlobFault (List Token) :=
  match chars with
  | [] => .ok tokens.reverse
  | '?' :: rest => readFrom (position + 1) (some '?') (.any :: tokens) rest
  | '*' :: '*' :: '*' :: _ => .error (.wildcards (position + 2))
  | '*' :: '*' :: rest =>
    if previous = none ∨ previous = some '/' then
      match rest with
      | [] => .ok (pushDeep tokens).reverse
      | c :: rest =>
        if c = '/' then readFrom (position + 3) (some '/') (pushDeep tokens) rest
        else .error (.recursion (position + 2))
    else .error (.recursion (position - 1))
  | '*' :: rest => readFrom (position + 1) (some '*') (.star :: tokens) rest
  | '[' :: rest =>
    match h : readClass rest with
    | some (token, after) =>
      have := readClass_length h
      readFrom (position + 1 + (rest.length - after.length)) (some ']') (token :: tokens) after
    | none => .error (.range position)
  | c :: rest => readFrom (position + 1) (some c) (.char c :: tokens) rest
termination_by chars.length

def read (text : String) : Except GlobFault Glob :=
  (readFrom 0 none [] text.toList).map Glob.mk

/-- A text as a glob that describes nothing but it. -/
def escape (text : String) : String :=
  String.ofList (text.toList.flatMap fun c =>
    if c = '?' ∨ c = '*' ∨ c = '[' ∨ c = ']' then ['[', c, ']'] else [c])

/-! ## Meaning -/

def inRanges (ranges : List (Char × Char)) (c : Char) : Bool :=
  ranges.any fun (low, high) => low ≤ c && c ≤ high

def Token.accepts (literalSeparator : Bool) (c : Char) : Token → Bool
  | char d => c == d
  | any => !(literalSeparator && c == '/')
  | within ranges => !(literalSeparator && c == '/') && inRanges ranges c
  | without ranges => !(literalSeparator && c == '/') && !inRanges ranges c
  | star => false
  | deep => false

/-- What may be left of a text behind `*`. -/
def afterStar (literalSeparator : Bool) : List Char → List (List Char)
  | [] => [[]]
  | c :: rest =>
    (c :: rest) :: if literalSeparator && c == '/' then [] else afterStar literalSeparator rest

/-- What is left of a text behind each of its separators, and nothing at all. -/
def afterSeparators : List Char → List (List Char)
  | [] => [[]]
  | c :: rest => if c == '/' then rest :: afterSeparators rest else afterSeparators rest

/-- What may be left of a text behind `**`: all of it, what follows a separator, or nothing. -/
def afterDeep (text : List Char) : List (List Char) := text :: afterSeparators text

def matchTokens (literalSeparator : Bool) : List Token → List Char → Bool
  | [], text => text.isEmpty
  | .star :: tokens, text =>
    (afterStar literalSeparator text).any fun rest => matchTokens literalSeparator tokens rest
  | .deep :: tokens, text =>
    (afterDeep text).any fun rest => matchTokens literalSeparator tokens rest
  | token :: tokens, text =>
    match text with
    | [] => false
    | c :: rest => token.accepts literalSeparator c && matchTokens literalSeparator tokens rest

/-- Whether a glob describes a text, with every wildcard reaching across separators. -/
def matchesName (glob : Glob) (text : String) : Bool := matchTokens false glob.tokens text.toList

/-- Whether a glob describes a path, with only `**` reaching across separators. -/
def matchesPath (glob : Glob) (text : String) : Bool := matchTokens true glob.tokens text.toList

def isDeep (glob : Glob) : Bool := glob.tokens.contains .deep

/-- The character that a token stands for, if it stands for one only. -/
def Token.literal? : Token → Option Char
  | char c => some c
  | _ => none

/-- The text that a glob without wildcards stands for. -/
def literal? (glob : Glob) : Option String := (glob.tokens.mapM Token.literal?).map String.ofList

end Glob

end BuildTargets
