import BuildTargets.Text.Class
import BuildTargets.Text.CaseFold

/-!
# Sets of characters

What a pattern accepts in one place, as an expression over stretches of code points and the
word, digit and blank properties. `contains` is the meaning of such an expression.
-/

namespace BuildTargets

/-- A set of characters. -/
inductive CharSet where
  | empty
  | span (low high : Char)
  | word
  | digit
  | blank
  | union (a b : CharSet)
  | inter (a b : CharSet)
  | compl (a : CharSet)
  | anyCase (a : CharSet)
deriving DecidableEq, Repr, Inhabited

namespace CharSet

/-- Whether a character belongs to the set; `anyCase a` holds a character if one that differs
from it in case only is in `a`. -/
def contains : CharSet → Char → Bool
  | empty, _ => false
  | span low high, c => low ≤ c && c ≤ high
  | word, c => Text.isWord c
  | digit, c => Text.isDigit c
  | blank, c => Text.isBlank c
  | union a b, c => a.contains c || b.contains c
  | inter a b, c => a.contains c && b.contains c
  | compl a, c => !a.contains c
  | anyCase a, c => (Text.caseVariants c).any a.contains

def one (c : Char) : CharSet := span c c

def ofList (cs : List Char) : CharSet := cs.foldr (fun c set => (one c).union set) empty

def all : CharSet := compl empty

def diff (a b : CharSet) : CharSet := a.inter b.compl

def symmDiff (a b : CharSet) : CharSet := (a.diff b).union (b.diff a)

/-! ## Named stretches of ASCII -/

def asciiDigit : CharSet := span '0' '9'

def asciiUpper : CharSet := span 'A' 'Z'

def asciiLower : CharSet := span 'a' 'z'

def asciiAlpha : CharSet := asciiUpper.union asciiLower

def asciiAlnum : CharSet := asciiDigit.union asciiAlpha

def asciiWord : CharSet := asciiAlnum.union (one '_')

def asciiSpace : CharSet := (span '\t' '\r').union (one ' ')

/-- The set that a name stands for in `[:name:]`. -/
def named? : String → Option CharSet
  | "alnum" => some asciiAlnum
  | "alpha" => some asciiAlpha
  | "ascii" => some (span '\x00' '\x7f')
  | "blank" => some (ofList ['\t', ' '])
  | "cntrl" => some ((span '\x00' '\x1f').union (one '\x7f'))
  | "digit" => some asciiDigit
  | "graph" => some (span '!' '~')
  | "lower" => some asciiLower
  | "print" => some (span ' ' '~')
  | "punct" =>
    some ((span '!' '/').union ((span ':' '@').union ((span '[' '\x60').union (span '\x7b' '~'))))
  | "space" => some asciiSpace
  | "upper" => some asciiUpper
  | "word" => some asciiWord
  | "xdigit" => some (asciiDigit.union ((span 'A' 'F').union (span 'a' 'f')))
  | _ => none

end CharSet

end BuildTargets
