import BuildTargets.Toml

/-!
# Reading Toml: texts, numbers and dates

The parts of a document that hold no other parts. Texts come in four styles; numbers may have
underscores between digits; dates and times are checked against the calendar and the clock.
-/

namespace BuildTargets.Toml

open Text

/-! ## Texts -/

def charOfHex? (digits : List Char) : Option Char :=
  match hexNumber? digits with
  | some code => if code.isValidChar then some (Char.ofNat code) else none
  | none => none

/-- The character that a letter behind a backslash stands for. -/
def escaped? : Char → Option Char
  | 'b' => some '\x08'
  | 't' => some '\t'
  | 'n' => some '\n'
  | 'f' => some '\x0c'
  | 'r' => some '\r'
  | 'e' => some '\x1b'
  | '"' => some '"'
  | '\\' => some '\\'
  | _ => none

/-- Puts a character in front of a text that was read, unless one of them is missing. -/
def pushChar (c : Option Char) (read : Option (List Char × List Char)) :
    Option (List Char × List Char) :=
  match c, read with
  | some c, some (text, after) => some (c :: text, after)
  | _, _ => none

/-- Reads a text with escapes up to its closing quote, and what follows. -/
def readBasic : List Char → Option (List Char × List Char)
  | [] => none
  | '"' :: rest => some ([], rest)
  | '\\' :: 'x' :: a :: b :: rest => pushChar (charOfHex? [a, b]) (readBasic rest)
  | '\\' :: 'u' :: a :: b :: c :: d :: rest => pushChar (charOfHex? [a, b, c, d]) (readBasic rest)
  | '\\' :: 'U' :: a :: b :: c :: d :: e :: f :: g :: h :: rest =>
    pushChar (charOfHex? [a, b, c, d, e, f, g, h]) (readBasic rest)
  | '\\' :: c :: rest => pushChar (escaped? c) (readBasic rest)
  | c :: rest =>
    if c = '\\' || c = '\n' || isControl c then none else pushChar (some c) (readBasic rest)

/-- Reads a text without escapes up to its closing quote, and what follows. -/
def readLiteral : List Char → Option (List Char × List Char)
  | [] => none
  | '\'' :: rest => some ([], rest)
  | c :: rest => if c = '\n' || isControl c then none else pushChar (some c) (readLiteral rest)

/-- The end of a text on several lines, where three quotes or more stand side by side: the quotes
that belong to the text, at most two, and what follows the last three. -/
def closeLines (quote : Char) (chars : List Char) : Option (List Char × List Char) :=
  let count := (chars.takeWhile (· == quote)).length
  if count < 3 then none
  else
    let count := min count 5
    some (List.replicate (count - 3) quote, chars.drop count)

/-- Reads a text on several lines with escapes. `trimming` says that a backslash at the end of a
line is being followed: nothing counts up to the next character that is no blank, and `ended`
that the line has ended. -/
def readBasicLines (trimming ended : Bool) : List Char → Option (List Char × List Char)
  | [] => none
  | '\r' :: '\n' :: rest =>
    if trimming then readBasicLines true true rest
    else pushChar (some '\r') (pushChar (some '\n') (readBasicLines false false rest))
  | '\n' :: rest =>
    if trimming then readBasicLines true true rest
    else pushChar (some '\n') (readBasicLines false false rest)
  | c :: rest =>
    if trimming && (c = ' ' || c = '\t') then readBasicLines true ended rest
    else if trimming && !ended then none
    else
      match closeLines '"' (c :: rest) with
      | some found => some found
      | none =>
        match c, rest with
        | '\\', 'x' :: a :: b :: rest =>
          pushChar (charOfHex? [a, b]) (readBasicLines false false rest)
        | '\\', 'u' :: a :: b :: c :: d :: rest =>
          pushChar (charOfHex? [a, b, c, d]) (readBasicLines false false rest)
        | '\\', 'U' :: a :: b :: c :: d :: e :: f :: g :: h :: rest =>
          pushChar (charOfHex? [a, b, c, d, e, f, g, h]) (readBasicLines false false rest)
        | '\\', '\n' :: rest => readBasicLines true true rest
        | '\\', c :: rest =>
          if c = ' ' || c = '\t' || c = '\r' then readBasicLines true false (c :: rest)
          else pushChar (escaped? c) (readBasicLines false false rest)
        | c, rest =>
          if c = '\\' || isControl c then none
          else pushChar (some c) (readBasicLines false false rest)
termination_by chars => chars.length

def readLiteralLines : List Char → Option (List Char × List Char)
  | [] => none
  | '\r' :: '\n' :: rest => pushChar (some '\r') (pushChar (some '\n') (readLiteralLines rest))
  | c :: rest =>
    match closeLines '\'' (c :: rest) with
    | some found => some found
    | none => if isControl c then none else pushChar (some c) (readLiteralLines rest)

/-- A text on several lines without the line feed that it may begin with. -/
def dropFirstLine : List Char → List Char
  | '\n' :: rest => rest
  | '\r' :: '\n' :: rest => rest
  | chars => chars

def readText : List Char → Option (List Char × List Char)
  | '"' :: '"' :: '"' :: rest => readBasicLines false false (dropFirstLine rest)
  | '"' :: rest => readBasic rest
  | '\'' :: '\'' :: '\'' :: rest => readLiteralLines (dropFirstLine rest)
  | '\'' :: rest => readLiteral rest
  | _ => none

/-! ## Numbers -/

def isDecimal (c : Char) : Bool := '0' ≤ c && c ≤ '9'

/-- Digits without the underscores between them. -/
def plainDigits (digit : Char → Bool) : List Char → Option (List Char)
  | [] => none
  | [c] => if digit c then some [c] else none
  | c :: '_' :: rest => if digit c then (plainDigits digit rest).map (c :: ·) else none
  | c :: rest => if digit c then (plainDigits digit rest).map (c :: ·) else none

def numberOf (base : Nat) (digits : List Char) : Nat :=
  digits.foldl (fun value c => base * value + (hexValue? c).getD 0) 0

/-- Decimal digits without a needless zero in front. -/
def wholeDigits (chars : List Char) : Option (List Char) :=
  match plainDigits isDecimal chars with
  | some ('0' :: _ :: _) => none
  | other => other

def splitSign : List Char → Bool × List Char
  | '-' :: rest => (true, rest)
  | '+' :: rest => (false, rest)
  | chars => (false, chars)

/-- A whole number: decimal with or without a sign, or in base 16, 8 or 2. -/
def integer? (chars : List Char) : Option Int :=
  match chars with
  | '0' :: 'x' :: rest =>
    (plainDigits (fun c => (hexValue? c).isSome) rest).map fun digits => numberOf 16 digits
  | '0' :: 'o' :: rest =>
    (plainDigits (fun c => '0' ≤ c && c ≤ '7') rest).map fun digits => numberOf 8 digits
  | '0' :: 'b' :: rest =>
    (plainDigits (fun c => c == '0' || c == '1') rest).map fun digits => numberOf 2 digits
  | _ =>
    let (negative, rest) := splitSign chars
    (wholeDigits rest).map fun digits =>
      let value : Int := numberOf 10 digits
      if negative then -value else value

/-- A decimal number with a fraction, an exponent or both: its digits and the power of ten that
they are multiplied by. -/
def decimal? (chars : List Char) : Option (List Char × Int) := do
  let (_, chars) := splitSign chars
  let mantissa := chars.takeWhile fun c => c != 'e' && c != 'E'
  let scale ← match chars.dropWhile fun c => c != 'e' && c != 'E' with
    | [] => some 0
    | _ :: rest => do
      let (negative, digits) := splitSign rest
      let value : Int := numberOf 10 (← plainDigits isDecimal digits)
      some (if negative then -value else value)
  let whole ← wholeDigits (mantissa.takeWhile (· != '.'))
  match mantissa.dropWhile (· != '.') with
  | [] => if mantissa.length = chars.length then none else some (whole, scale)
  | _ :: fraction =>
    let fraction ← plainDigits isDecimal fraction
    some (whole ++ fraction, scale - fraction.length)

/-- Infinity and the number that is none, with or without a sign. -/
def isSpecialFloat (chars : List Char) : Bool :=
  let name := (splitSign chars).2
  name == ['i', 'n', 'f'] || name == ['n', 'a', 'n']

/-- Whether a decimal number is too great for 64 bits: it is not nearer to the greatest number
that fits than to the one that would come next. -/
def isTooGreat (digits : List Char) (scale : Int) : Bool :=
  let digits := digits.dropWhile (· == '0')
  let value := numberOf 10 digits
  let magnitude := digits.length + scale
  let bound := Nat.pow 2 1024 - Nat.pow 2 970
  if digits.isEmpty || magnitude < 309 then false
  else if 309 < magnitude then true
  else if 0 ≤ scale then bound ≤ value * Nat.pow 10 scale.toNat
  else bound * Nat.pow 10 (-scale).toNat ≤ value

/-- Whether what was written as a number with a fraction or an exponent fits into 64 bits. -/
def isFiniteFloat (written : String) : Bool :=
  match decimal? (written.toList.filter (· != '_')) with
  | some (digits, scale) => !isTooGreat digits scale
  | none => true

/-! ## Dates -/

/-- The number that two decimal digits stand for, from `low` to `high`. -/
def twoDigits? (low high : Nat) (a b : Char) : Option Nat :=
  if isDecimal a && isDecimal b then
    let value := numberOf 10 [a, b]
    if low ≤ value ∧ value ≤ high then some value else none
  else none

def isLeapYear (year : Nat) : Bool := year % 4 == 0 && (year % 100 != 0 || year % 400 == 0)

def daysIn (year month : Nat) : Nat :=
  if month = 2 then if isLeapYear year then 29 else 28
  else if month = 4 ∨ month = 6 ∨ month = 9 ∨ month = 11 then 30
  else 31

def readDate : List Char → Option (List Char)
  | a :: b :: c :: d :: '-' :: e :: f :: '-' :: g :: h :: rest => do
    if !([a, b, c, d].all isDecimal) then none
    let month ← twoDigits? 1 12 e f
    let _ ← twoDigits? 1 (daysIn (numberOf 10 [a, b, c, d]) month) g h
    some rest
  | _ => none

/-- A time of day, whose seconds may be left out, and what follows. -/
def readTime : List Char → Option (List Char)
  | a :: b :: ':' :: c :: d :: rest => do
    let _ ← twoDigits? 0 23 a b
    let _ ← twoDigits? 0 59 c d
    match rest with
    | ':' :: e :: f :: rest =>
      let _ ← twoDigits? 0 60 e f
      match rest with
      | '.' :: digit :: rest => if isDecimal digit then some (rest.dropWhile isDecimal) else none
      | _ => some rest
    | _ => some rest
  | _ => none

/-- Whether a text is the distance of a clock from that of Greenwich, or nothing. -/
def isOffset : List Char → Bool
  | [] => true
  | ['Z'] => true
  | ['z'] => true
  | [sign, a, b, ':', c, d] =>
    (sign == '+' || sign == '-') && (twoDigits? 0 23 a b).isSome && (twoDigits? 0 59 c d).isSome
  | _ => false

/-- Whether a text is a date, a time, or a date with a time. -/
def isDate (chars : List Char) : Bool :=
  match readDate chars with
  | some [] => true
  | some (c :: rest) =>
    if c = 'T' || c = 't' || c = ' ' then (readTime rest).any isOffset else false
  | none => readTime chars == some []

/-! ## Words -/

/-- Whether a character may stand in a value without quotes. -/
def isWordChar (c : Char) : Bool := isBare c || c == '+' || c == '.' || c == ':'

/-- Takes a value without quotes off a text. A date and a time may have a blank between them. -/
def takeWord (chars : List Char) : List Char × List Char :=
  let word := chars.takeWhile isWordChar
  match chars.dropWhile isWordChar with
  | ' ' :: c :: rest =>
    if readDate word == some [] && isDecimal c then
      (word ++ ' ' :: (c :: rest).takeWhile isWordChar, (c :: rest).dropWhile isWordChar)
    else (word, ' ' :: c :: rest)
  | rest => (word, rest)

def valueOfWord? (word : List Char) : Option Value :=
  if word = ['t', 'r', 'u', 'e'] then some (.bool true)
  else if word = ['f', 'a', 'l', 's', 'e'] then some (.bool false)
  else match integer? word with
    | some value => some (.integer value)
    | none =>
      if isSpecialFloat word || (decimal? word).isSome then some (.float (String.ofList word))
      else if isDate word then some (.date (String.ofList word))
      else none

end BuildTargets.Toml
