/-!
# Sums in shell scripts

Whole numbers with the usual operations and parentheses, as they stand between double parentheses
behind a dollar sign. Names stand for their values.
-/

namespace BuildTargets.Shell

namespace Sum

def skipBlanks : List Char → List Char := List.dropWhile fun c => c == ' ' || c == '\t' || c == '\n'

/-- What is done to two numbers; nothing can be divided by zero. -/
def combine? (operation : Char) (a b : Int) : Option Int :=
  match operation with
  | '+' => some (a + b)
  | '-' => some (a - b)
  | '*' => some (a * b)
  | '/' => if b = 0 then none else some (a.tdiv b)
  | '%' => if b = 0 then none else some (a.tmod b)
  | _ => none

def readNumber (chars : List Char) : Option (Int × List Char) :=
  let digits := chars.takeWhile Char.isDigit
  if digits.isEmpty then none
  else some (digits.foldl (fun value c => 10 * value + (c.toNat - '0'.toNat)) 0,
    chars.dropWhile Char.isDigit)

def readName (chars : List Char) : Option (String × List Char) :=
  let name := chars.takeWhile fun c => c.isAlphanum || c == '_'
  if name.isEmpty then none else some (String.ofList name, chars.drop name.length)

/-- Goes on with operations from a number that was read. The fuel is above the number of
characters. -/
def readMore (isOperation : Char → Bool)
    (operand : List Char → Option (Int × List Char)) :
    (fuel : Nat) → Int → List Char → Option (Int × List Char)
  | 0, _, _ => none
  | fuel + 1, first, chars =>
    match skipBlanks chars with
    | c :: rest =>
      if isOperation c then do
        let (second, rest) ← operand rest
        readMore isOperation operand fuel (← combine? c first second) rest
      else some (first, c :: rest)
    | [] => some (first, [])

mutual

/-- Reads terms with `+` and `-` between them, and what follows. The fuel is above three times
the number of characters, as for the others. -/
def readSum (value : String → String) : (fuel : Nat) → List Char → Option (Int × List Char)
  | 0, _ => none
  | fuel + 1, chars => do
    let (first, rest) ← readProduct value fuel chars
    readMore (fun c => c == '+' || c == '-') (readProduct value fuel) fuel first rest

/-- Reads factors with `*`, `/` and `%` between them, and what follows. -/
def readProduct (value : String → String) : (fuel : Nat) → List Char → Option (Int × List Char)
  | 0, _ => none
  | fuel + 1, chars => do
    let (first, rest) ← readFactor value fuel chars
    readMore (fun c => c == '*' || c == '/' || c == '%') (readFactor value fuel) fuel first
      rest

/-- Reads a number, a name, a factor with a sign, or a sum between parentheses. -/
def readFactor (value : String → String) : (fuel : Nat) → List Char → Option (Int × List Char)
  | 0, _ => none
  | fuel + 1, chars =>
    match skipBlanks chars with
    | '-' :: rest => (readFactor value fuel rest).map fun (number, rest) => (-number, rest)
    | '+' :: rest => readFactor value fuel rest
    | '(' :: rest => do
      let (number, rest) ← readSum value fuel rest
      match skipBlanks rest with
      | ')' :: rest => return (number, rest)
      | _ => none
    | '$' :: rest => readFactor value fuel rest
    | rest =>
      match readNumber rest with
      | some found => some found
      | none => do
        let (name, rest) ← readName rest
        return (((readNumber (value name).toList).map Prod.fst).getD 0, rest)

end

end Sum

def sum? (value : String → String) (expression : String) : Option Int :=
  let chars := expression.toList
  match Sum.readSum value (3 * chars.length + 6) chars with
  | some (number, rest) => if (Sum.skipBlanks rest).isEmpty then some number else none
  | none => none

end BuildTargets.Shell
