import BuildTargets.Pattern
import BuildTargets.Text.Class

/-!
# Written patterns

The notation of patterns: literals, `.`, classes with ranges, nesting and set operations, the
short classes `\d \s \w`, named and plain groups, alternatives, counted, greedy and lazy
repetitions, anchors, word boundaries and inline flags. Classes that name a property, and
everything that looks back or around, are refused.
-/

namespace BuildTargets

open Text

inductive PatternFault where
  | unclosedGroup
  | unopenedGroup
  | emptyFlags
  | unknownFlag
  | lookAround
  | groupName
  | repeatedGroupName (name : String)
  | nothingToRepeat
  | repetitionCount
  | unclosedClass
  | classRange
  | escape
  | property
  | notText
  | tooDeep
deriving DecidableEq, Repr

def PatternFault.message : PatternFault → String
  | unclosedGroup => "unclosed group"
  | unopenedGroup => "unopened group"
  | emptyFlags => "missing flag"
  | unknownFlag => "unrecognized flag"
  | lookAround => "look-around is not supported"
  | groupName => "invalid capture group name"
  | repeatedGroupName name => "duplicate capture group name: " ++ name
  | nothingToRepeat => "repetition operator missing expression"
  | repetitionCount => "invalid repetition count"
  | unclosedClass => "unclosed character class"
  | classRange => "invalid character class range"
  | escape => "unrecognized escape sequence"
  | property => "Unicode property not found"
  | notText => "pattern can match invalid UTF-8"
  | tooDeep => "pattern is nested too deeply"

namespace Pattern

/-- How the parts of a pattern behind a flag are read. -/
structure Flags where
  anyCase : Bool := false
  multiLine : Bool := false
  dotAll : Bool := false
  swapGreed : Bool := false
  spaced : Bool := false
  returns : Bool := false
  unicode : Bool := true
deriving DecidableEq, Repr

/-- What is left to read, and the group names met. -/
structure Reading where
  rest : List Char
  names : List String

abbrev Reader := StateT Reading (Except PatternFault)

namespace Reader

def peek : Reader (Option Char) := return (← get).rest.head?

def skip : Reader Unit := modify fun s => { s with rest := s.rest.tail }

def next (fault : PatternFault) : Reader Char := do
  match (← get).rest with
  | [] => throw fault
  | c :: rest => do modify fun s => { s with rest := rest }; return c

def accept (text : List Char) : Reader Bool := do
  let s ← get
  if text.isPrefixOf s.rest then
    set { s with rest := s.rest.drop text.length }
    return true
  else return false

/-- The text without blanks and comments at its start. -/
def dropSpace (inComment : Bool) : List Char → List Char
  | [] => []
  | c :: rest =>
    if inComment then dropSpace (c != '\n') rest
    else if c = '#' then dropSpace true rest
    else if Text.isBlank c then dropSpace false rest
    else c :: rest

/-- Skips blanks and comments where they do not count. -/
def skipSpace (flags : Flags) : Reader Unit :=
  if flags.spaced then modify fun s => { s with rest := dropSpace false s.rest } else pure ()

/-! ## Single characters and short classes -/

def literalSet (flags : Flags) (c : Char) : CharSet :=
  if flags.anyCase then .anyCase (.one c) else .one c

/-- The set of a short class, which a capital letter complements. -/
def shortClass? (flags : Flags) (c : Char) : Option (Except PatternFault CharSet) :=
  let pick (wide narrow : CharSet) : CharSet := if flags.unicode then wide else narrow
  let turned (set : CharSet) : Except PatternFault CharSet :=
    if flags.unicode then .ok set.compl else .error .notText
  match c with
  | 'd' => some (.ok (pick .digit .asciiDigit))
  | 's' => some (.ok (pick .blank .asciiSpace))
  | 'w' => some (.ok (pick .word .asciiWord))
  | 'D' => some (turned .digit)
  | 'S' => some (turned .blank)
  | 'W' => some (turned .word)
  | _ => none

/-- The characters that have a meaning of their own in patterns. -/
def special : List Char :=
  ['\\', '.', '+', '*', '?', '(', ')', '|', '[', ']', '\x7b', '\x7d', '^', '$', '#', '&', '-', '~']

def escapable (c : Char) : Bool :=
  special.contains c || (c.toNat < 128 && !c.isAlphanum && c != '<' && c != '>')

def charOf (code : Option Nat) : Reader Char :=
  match code with
  | some code => if code.isValidChar then return Char.ofNat code else throw .escape
  | none => throw .escape

/-- A code point in hexadecimal: `count` digits, or any number of them in braces. -/
def hexChar (count : Nat) : Reader Char := do
  if ← accept ['\x7b'] then
    let digits := (← get).rest.takeWhile (· != '\x7d')
    modify fun s => { s with rest := s.rest.drop digits.length }
    unless ← accept ['\x7d'] do throw .escape
    charOf (hexNumber? digits)
  else
    let digits := (← get).rest.take count
    if digits.length < count then throw .escape
    modify fun s => { s with rest := s.rest.drop count }
    charOf (hexNumber? digits)

inductive Escaped where
  | char (c : Char)
  | set (set : CharSet)
  | boundary (boundary : Boundary)

/-- Which side of a word a boundary in braces asks for. -/
def wordSide? (letters : CharSet) : String → Option Boundary
  | "start" => some (.wordStart letters)
  | "end" => some (.wordEnd letters)
  | "start-half" => some (.wordStartHalf letters)
  | "end-half" => some (.wordEndHalf letters)
  | _ => none

/-- A word boundary, and the side of it that braces name. -/
def wordBoundary (letters : CharSet) : Reader Escaped := do
  let s ← get
  match s.rest with
  | '\x7b' :: rest =>
    let name := rest.takeWhile fun c => c.isAlphanum || c == '-'
    match rest.drop name.length with
    | '\x7d' :: behind =>
      match wordSide? letters (String.ofList name) with
      | some boundary => do set { s with rest := behind }; return .boundary boundary
      | none => if name = [] then return .boundary (.wordEdge letters) else throw .escape
    | _ => return .boundary (.wordEdge letters)
  | _ => return .boundary (.wordEdge letters)

def escape (flags : Flags) : Reader Escaped := do
  let c ← next .escape
  let letters : CharSet := if flags.unicode then .word else .asciiWord
  match shortClass? flags c with
  | some set => return .set (← liftM set)
  | none =>
    match c with
    | 'x' => return .char (← hexChar 2)
    | 'u' => return .char (← hexChar 4)
    | 'U' => return .char (← hexChar 8)
    | 'p' => throw .property
    | 'P' => throw .property
    | 'a' => return .char '\x07'
    | 'f' => return .char '\x0c'
    | 't' => return .char '\t'
    | 'n' => return .char '\n'
    | 'r' => return .char '\r'
    | 'v' => return .char '\x0b'
    | 'A' => return .boundary .textStart
    | 'z' => return .boundary .textEnd
    | 'b' => wordBoundary letters
    | 'B' => return .boundary (.wordInner letters)
    | '<' => return .boundary (.wordStart letters)
    | '>' => return .boundary (.wordEnd letters)
    | _ => if escapable c then return .char c else throw .escape

/-! ## Classes -/

/-- One member of a class, or the end of a range. -/
def classItem (flags : Flags) : Reader Escaped := do
  let c ← next .unclosedClass
  if c = '\\' then
    match ← escape flags with
    | .boundary _ => throw .escape
    | item => return item
  else return .char c

def itemSet : Escaped → CharSet
  | .char c => .one c
  | .set set => set
  | .boundary _ => .empty

def classRange (flags : Flags) : Reader CharSet := do
  let first ← classItem flags
  skipSpace flags
  let rest := (← get).rest
  let behind := match rest with
    | '-' :: behind => if flags.spaced then dropSpace false behind else behind
    | _ => []
  match rest, behind with
  | [], _ => throw .unclosedClass
  | '-' :: _, c :: _ =>
    if c = ']' || c = '-' then return itemSet first
    else do
      modify fun s => { s with rest := behind }
      let last ← classItem flags
      match first, last with
      | .char low, .char high =>
        if low ≤ high then return .span low high else throw .classRange
      | _, _ => throw .classRange
  | '-' :: _, [] => throw .unclosedClass
  | _, _ => return itemSet first

/-- A named stretch of ASCII such as `[:alpha:]`, if one comes next. -/
def namedClass? : Reader (Option CharSet) := do
  let s ← get
  match s.rest with
  | '[' :: ':' :: rest =>
    let (negated, rest) := match rest with
      | '^' :: rest => (true, rest)
      | _ => (false, rest)
    let name := rest.takeWhile (· != ':')
    match rest.drop name.length with
    | ':' :: ']' :: behind =>
      match CharSet.named? (String.ofList name) with
      | some set => do
        MonadStateOf.set { s with rest := behind }
        return some (if negated then set.compl else set)
      | none => return none
    | _ => return none
  | _ => return none

/-- A pending set operation of a class: the operation and its left side. -/
abbrev Pending := Option ((CharSet → CharSet → CharSet) × CharSet)

/-- A class in lower and upper case where case does not count. -/
def cased (flags : Flags) (set : CharSet) : CharSet :=
  if flags.anyCase then .anyCase set else set

/-- Applies the pending operation to its right side. -/
def settle (flags : Flags) (pending : Pending) (right : CharSet) : CharSet :=
  match pending with
  | some (op, left) => op (cased flags left) (cased flags right)
  | none => right

mutual

def classBody (flags : Flags) : Nat → Reader CharSet
  | 0 => throw .tooDeep
  | fuel + 1 => do
    skipSpace flags
    let negated ← accept ['^']
    skipSpace flags
    let hyphens := (← get).rest.takeWhile (· == '-')
    modify fun s => { s with rest := s.rest.drop hyphens.length }
    skipSpace flags
    let start : CharSet := if hyphens.isEmpty then .empty else .one '-'
    let start ←
      if hyphens.isEmpty then
        if ← accept [']'] then pure (start.union (.one ']')) else pure start
      else pure start
    let set ← classMembers flags fuel none start
    if negated && !flags.unicode then throw .notText
    let set := cased flags set
    return if negated then set.compl else set

def classMembers (flags : Flags) : Nat → Pending → CharSet → Reader CharSet
  | 0, _, _ => throw .tooDeep
  | fuel + 1, pending, set => do
    skipSpace flags
    if (← peek).isNone then throw .unclosedClass
    if ← accept [']'] then return settle flags pending set
    else if ← accept ['&', '&'] then
      classMembers flags fuel (some (.inter, settle flags pending set)) .empty
    else if ← accept ['-', '-'] then
      classMembers flags fuel (some (.diff, settle flags pending set)) .empty
    else if ← accept ['~', '~'] then
      classMembers flags fuel (some (.symmDiff, settle flags pending set)) .empty
    else
      match ← namedClass? with
      | some named => classMembers flags fuel pending (set.union named)
      | none =>
        if ← accept ['['] then
          let inner ← classBody flags fuel
          classMembers flags fuel pending (set.union inner)
        else
          let member ← classRange flags
          classMembers flags fuel pending (set.union member)

end

/-! ## Groups and flags -/

def nameStart (c : Char) : Bool := c == '_' || (Text.isWord c && !Text.isDigit c)

def namePart (c : Char) : Bool :=
  c == '_' || c == '.' || c == '[' || c == ']' || Text.isWord c

def groupName : Reader String := do
  let name := (← get).rest.takeWhile (· != '>')
  modify fun s => { s with rest := s.rest.drop name.length }
  unless ← accept ['>'] do throw .groupName
  match name with
  | [] => throw .groupName
  | c :: rest =>
    unless nameStart c && rest.all namePart do throw .groupName
    let name := String.ofList name
    if (← get).names.contains name then throw (.repeatedGroupName name)
    modify fun s => { s with names := name :: s.names }
    return name

def setFlag (flags : Flags) (on : Bool) : Char → Option Flags
  | 'i' => some { flags with anyCase := on }
  | 'm' => some { flags with multiLine := on }
  | 's' => some { flags with dotAll := on }
  | 'U' => some { flags with swapGreed := on }
  | 'u' => some { flags with unicode := on }
  | 'R' => some { flags with returns := on }
  | 'x' => some { flags with spaced := on }
  | _ => none

/-- Reads flags up to `:` or `)`, and says which of the two ended them. -/
def flagList (flags : Flags) (on : Bool) (seen : List Char) :
    List Char → Except PatternFault (Flags × Bool × List Char)
  | [] => .error .unclosedGroup
  | c :: rest =>
    if c = ':' || c = ')' then
      if seen.head? = some '-' then .error .unknownFlag
      else if c = ')' && seen.isEmpty then .error .emptyFlags
      else .ok (flags, c = ':', rest)
    else if seen.contains c then .error .unknownFlag
    else if c = '-' then flagList flags false (c :: seen) rest
    else match setFlag flags on c with
      | some flags => flagList flags on (c :: seen) rest
      | none => .error .unknownFlag

inductive Opening where
  | group (name : Option String) (flags : Flags)
  | flags (flags : Flags)

def opening (flags : Flags) : Reader Opening := do
  if ← accept ['?', '='] then throw .lookAround
  if ← accept ['?', '!'] then throw .lookAround
  if ← accept ['?', '<', '='] then throw .lookAround
  if ← accept ['?', '<', '!'] then throw .lookAround
  if ← accept ['?', 'P', '<'] then return .group (some (← groupName)) flags
  if ← accept ['?', '<'] then return .group (some (← groupName)) flags
  if ← accept ['?'] then
    let (flags, isGroup, rest) ← liftM (flagList flags true [] (← get).rest)
    modify fun s => { s with rest := rest }
    return if isGroup then .group none flags else .flags flags
  return .group none flags

/-! ## Repetitions -/

/-- A decimal number with blanks around it. -/
def countNumber : Reader (Option Nat) := do
  let rest := (← get).rest.dropWhile Text.isBlank
  let digits := rest.takeWhile Char.isDigit
  let rest := (rest.drop digits.length).dropWhile Text.isBlank
  modify fun s => { s with rest := rest }
  return if digits.isEmpty then none
    else some (digits.foldl (fun value c => value * 10 + (c.toNat - '0'.toNat)) 0)

/-- A count that fits its field. -/
def boundedCount (count : Option Nat) : Reader Nat :=
  match count with
  | some count => if count < 4294967296 then return count else throw .repetitionCount
  | none => throw .repetitionCount

def counts : Reader (Nat × Option Nat) := do
  let least ← boundedCount (← countNumber)
  let most ←
    if ← accept [','] then
      match ← countNumber with
      | some most => pure (some (← boundedCount (some most)))
      | none => pure none
    else pure (some least)
  unless ← accept ['\x7d'] do throw .repetitionCount
  match most with
  | some bound => if bound < least then throw .repetitionCount else return (least, most)
  | none => return (least, most)

def repetition? : Reader (Option (Nat × Option Nat)) := do
  if ← accept ['?'] then return some (0, some 1)
  if ← accept ['*'] then return some (0, none)
  if ← accept ['+'] then return some (1, none)
  if ← accept ['\x7b'] then return some (← counts)
  return none

/-! ## Patterns -/

/-- The places where a line begins and ends under some flags. -/
def lineBoundary (flags : Flags) (atStart : Bool) : Boundary :=
  match flags.multiLine, flags.returns, atStart with
  | false, _, true => .textStart
  | false, _, false => .textEnd
  | true, false, true => .lineStart
  | true, false, false => .lineEnd
  | true, true, true => .returnLineStart
  | true, true, false => .returnLineEnd

/-- The characters that `.` stands for. -/
def dotSet (flags : Flags) : CharSet :=
  if flags.dotAll then .all
  else if flags.returns then (CharSet.ofList ['\n', '\r']).compl
  else (CharSet.one '\n').compl

/-- One part of a branch; flags leave no pattern behind. -/
abbrev Part := Option Pattern

/-- The branch made of parts read, the last one first. -/
def branch (parts : List Part) : Pattern := Pattern.seqs (parts.reverse.filterMap id)

/-- The alternatives made of branches read, the last one first. -/
def alternatives : List Pattern → Pattern
  | [] => .empty
  | [only] => only
  | last :: before => before.foldl (fun rest pattern => .alt pattern rest) last

/-- Reads one part that is neither a group, nor a class, nor a repetition. -/
def atom (flags : Flags) (c : Char) : Reader Pattern := do
  match c with
  | '.' => if flags.unicode then return .one (dotSet flags) else throw .notText
  | '^' => return .assert (lineBoundary flags true)
  | '$' => return .assert (lineBoundary flags false)
  | '\\' =>
    match ← escape flags with
    | .char c => return .one (literalSet flags c)
    | .set set => return .one set
    | .boundary boundary => return .assert boundary
  | _ => return .one (literalSet flags c)

/-- Reads alternatives up to a closing parenthesis or the end of the text. -/
def patterns : Nat → Flags → List Pattern → List Part → Reader Pattern
  | 0, _, _, _ => throw .tooDeep
  | fuel + 1, flags, branches, parts => do
    skipSpace flags
    match ← peek with
    | none => return alternatives (branch parts :: branches)
    | some ')' => return alternatives (branch parts :: branches)
    | some '|' => do skip; patterns fuel flags (branch parts :: branches) []
    | some '(' => do
      skip
      match ← opening flags with
      | .flags flags => patterns fuel flags branches (none :: parts)
      | .group name inner =>
        let body ← patterns fuel inner [] []
        unless ← accept [')'] do throw .unclosedGroup
        let part := match name with
          | some name => .group name body
          | none => body
        patterns fuel flags branches (some part :: parts)
    | some '[' => do
      skip
      let set ← classBody flags fuel
      patterns fuel flags branches (some (.one set) :: parts)
    | some c => do
      match ← repetition? with
      | some (least, most) =>
        let lazy ← accept ['?']
        let greedy := lazy == flags.swapGreed
        match parts with
        | some body :: before =>
          patterns fuel flags branches (some (Pattern.repeated least most greedy body) :: before)
        | _ => throw .nothingToRepeat
      | none => do
        skip
        let part ← atom flags c
        patterns fuel flags branches (some part :: parts)

end Reader

def read (text : String) : Except PatternFault Pattern := do
  let chars := text.toList
  let (pattern, left) ← (Reader.patterns (2 * chars.length + 1) {} [] []).run ⟨chars, []⟩
  if left.rest.isEmpty then return pattern else throw .unopenedGroup

end Pattern

end BuildTargets
