import BuildTargets.Json

/-!
# Reading Json

A text is read if all of it is one value. Blanks may stand around every part; nothing else is
lenient. How deep values are nested does not matter.
-/

namespace BuildTargets.Json

open Text

def skipBlanks : List Char → List Char :=
  List.dropWhile fun c => c = ' ' || c = '\t' || c = '\n' || c = '\r'

def hexUnit? (a b c d : Char) : Option Nat := do
  return (((← hexValue? a) * 16 + (← hexValue? b)) * 16 + (← hexValue? c)) * 16 + (← hexValue? d)

/-- The character that a letter behind a backslash stands for. -/
def escaped? : Char → Option Char
  | '"' => some '"'
  | '\\' => some '\\'
  | '/' => some '/'
  | 'b' => some '\x08'
  | 'f' => some '\x0c'
  | 'n' => some '\n'
  | 'r' => some '\r'
  | 't' => some '\t'
  | _ => none

/-- Reads up to the closing quote: the code units that the text stands for, how they were
written, and what follows the quote. Control characters have to be escaped. -/
def readUnits : List Char → Option (List Nat × List Char × List Char)
  | '"' :: rest => some ([], [], rest)
  | '\\' :: 'u' :: a :: b :: c :: d :: rest => do
    let unit ← hexUnit? a b c d
    let (units, written, after) ← readUnits rest
    return (unit :: units, '\\' :: 'u' :: a :: b :: c :: d :: written, after)
  | '\\' :: c :: rest => do
    let char ← escaped? c
    let (units, written, after) ← readUnits rest
    return (char.toNat :: units, '\\' :: c :: written, after)
  | c :: rest =>
    if c = '\\' ∨ c.toNat < 0x20 then none
    else do
      let (units, written, after) ← readUnits rest
      return (c.toNat :: units, c :: written, after)
  | [] => none

/-- The text that code units stand for: two halves in order make one character, and a half alone
makes none. -/
def joinUnits : List Nat → Option (List Char)
  | [] => some []
  | unit :: rest =>
    if 0xD800 ≤ unit ∧ unit < 0xDC00 then
      match rest with
      | low :: rest =>
        if 0xDC00 ≤ low ∧ low < 0xE000 then
          (joinUnits rest).map
            (Char.ofNat (0x10000 + (unit - 0xD800) * 0x400 + (low - 0xDC00)) :: ·)
        else none
      | [] => none
    else if 0xDC00 ≤ unit ∧ unit < 0xE000 then none
    else (joinUnits rest).map (Char.ofNat unit :: ·)

def readQuoted (chars : List Char) : Option (Quoted × List Char) :=
  match readUnits chars with
  | none => none
  | some (units, written, rest) =>
    match joinUnits units with
    | some text => some (.text (String.ofList text), rest)
    | none => some (.broken (String.ofList written), rest)

def isDecimal (c : Char) : Bool := '0' ≤ c && c ≤ '9'

def natOfDigits (digits : List Char) : Nat :=
  digits.foldl (fun value c => 10 * value + (c.toNat - '0'.toNat)) 0

/-- At least one digit, and what follows. -/
def readDigits (chars : List Char) : Option (List Char × List Char) :=
  let digits := chars.takeWhile isDecimal
  if digits.isEmpty then none else some (digits, chars.dropWhile isDecimal)

/-- Digits without a needless zero in front, and what follows. -/
def readWhole (chars : List Char) : Option (List Char × List Char) :=
  match readDigits chars with
  | some ('0' :: _ :: _, _) => none
  | other => other

/-- A point and digits behind it, or nothing. -/
def readFraction (chars : List Char) : Option (List Char × List Char) :=
  match chars with
  | '.' :: rest => (readDigits rest).map fun (digits, after) => ('.' :: digits, after)
  | _ => some ([], chars)

def readExponent (chars : List Char) : Option (List Char × List Char) :=
  match chars with
  | letter :: rest =>
    if letter = 'e' ∨ letter = 'E' then
      match rest with
      | sign :: more =>
        if sign = '+' ∨ sign = '-' then
          (readDigits more).map fun (digits, after) => (letter :: sign :: digits, after)
        else (readDigits rest).map fun (digits, after) => (letter :: digits, after)
      | [] => none
    else some ([], chars)
  | [] => some ([], chars)

/-- Reads a number. Zero with a sign is not whole. -/
def readNumber (chars : List Char) : Option (Value × List Char) := do
  let (sign, chars) := match chars with
    | '-' :: rest => (['-'], rest)
    | _ => ([], chars)
  let (whole, chars) ← readWhole chars
  let (fraction, chars) ← readFraction chars
  let (exponent, chars) ← readExponent chars
  let value := natOfDigits whole
  if fraction.isEmpty && exponent.isEmpty && (sign.isEmpty || value != 0) then
    return (.integer (if sign.isEmpty then value else -value), chars)
  else return (.real (String.ofList (sign ++ whole ++ fraction ++ exponent)), chars)

mutual

/-- Reads a value, and gives what follows it. The fuel is above the number of characters. -/
def readValue : (fuel : Nat) → List Char → Option (Value × List Char)
  | 0, _ => none
  | fuel + 1, chars =>
    match skipBlanks chars with
    | 'n' :: 'u' :: 'l' :: 'l' :: rest => some (.null, rest)
    | 't' :: 'r' :: 'u' :: 'e' :: rest => some (.bool true, rest)
    | 'f' :: 'a' :: 'l' :: 's' :: 'e' :: rest => some (.bool false, rest)
    | '"' :: rest => (readQuoted rest).map fun (quoted, after) => (.string quoted, after)
    | '[' :: rest =>
      match skipBlanks rest with
      | ']' :: after => some (.array [], after)
      | rest => (readElements fuel rest).map fun (elements, after) => (.array elements, after)
    | '{' :: rest =>
      match skipBlanks rest with
      | '}' :: after => some (.object [], after)
      | rest => (readMembers fuel rest).map fun (members, after) => (.object members, after)
    | rest => readNumber rest

def readElements : (fuel : Nat) → List Char → Option (List Value × List Char)
  | 0, _ => none
  | fuel + 1, chars => do
    let (value, rest) ← readValue fuel chars
    match skipBlanks rest with
    | ']' :: after => return ([value], after)
    | ',' :: rest =>
      let (values, after) ← readElements fuel rest
      return (value :: values, after)
    | _ => none

def readMembers : (fuel : Nat) → List Char → Option (List (Quoted × Value) × List Char)
  | 0, _ => none
  | fuel + 1, chars =>
    match skipBlanks chars with
    | '"' :: rest => do
      let (name, rest) ← readQuoted rest
      match skipBlanks rest with
      | ':' :: rest =>
        let (value, rest) ← readValue fuel rest
        match skipBlanks rest with
        | '}' :: after => return ([(name, value)], after)
        | ',' :: rest =>
          let (members, after) ← readMembers fuel rest
          return ((name, value) :: members, after)
        | _ => none
      | _ => none
    | _ => none

end

def Value.read (text : String) : Option Value :=
  let chars := text.toList
  match readValue (2 * chars.length + 2) chars with
  | some (value, rest) => if (skipBlanks rest).isEmpty then some value else none
  | none => none

end BuildTargets.Json
