import BuildTargets.Text.Class

/-!
# Toml values and how they are written

A document is a table. It is written with its plain members first and then its tables, each under
a header. A text is written in the style that needs the least escapes; an array of more than one
element takes a line for each.
-/

namespace BuildTargets.Toml

/-- A value. Numbers that are not whole and dates are kept as they were written. -/
inductive Value where
  | string (text : String)
  | integer (value : Int)
  | float (written : String)
  | bool (value : Bool)
  | date (written : String)
  | array (elements : List Value)
  | table (members : List (String × Value))
deriving Repr, Inhabited

/-! ## Writing texts -/

/-- Whether a character is a control character other than a tab or a line feed. -/
def isControl (c : Char) : Bool :=
  (c.toNat < 0x20 && c != '\t' && c != '\n') || c == '\x7f'

/-- The length of the longest run of a character in a text; `run` is the length of the run that
the text goes on with. -/
def longestRun (quote : Char) (run : Nat) : List Char → Nat
  | [] => run
  | c :: rest =>
    if c = quote then longestRun quote (run + 1) rest else max run (longestRun quote 0 rest)

/-- The four ways to write a text: with escapes or without, on one line or on several. -/
inductive Style where
  | basic
  | literal
  | basicLines
  | literalLines
deriving DecidableEq, Repr

namespace Style

/-- The style for a text: the first one that needs no escapes, and otherwise one with escapes. -/
def forText (text : List Char) : Style :=
  let control := text.any isControl
  let lines := text.contains '\n'
  let escapes := control || text.contains '\\'
  if !escapes && !lines && !text.contains '"' then basic
  else if !control && !lines && !text.contains '\'' then literal
  else if !escapes && longestRun '"' 0 text ≤ 2 then basicLines
  else if !control && longestRun '\'' 0 text ≤ 2 then literalLines
  else if lines then basicLines
  else basic

/-- The style for a key that is not bare; a key takes one line. -/
def forKey (text : List Char) : Style :=
  let control := text.any isControl || text.contains '\n'
  if !control && !text.contains '\\' && !text.contains '"' then basic
  else if !control && !text.contains '\'' then literal
  else basic

end Style

/-- A character that needs an escape, unless it is a quote or a line feed. -/
def escape (c : Char) : List Char :=
  match c with
  | '\x08' => ['\\', 'b']
  | '\t' => ['\\', 't']
  | '\n' => ['\\', 'n']
  | '\x0c' => ['\\', 'f']
  | '\r' => ['\\', 'r']
  | '\\' => ['\\', '\\']
  | c =>
    if c.toNat < 0x20 || c == '\x7f' then
      let digit := fun value => (Text.hexDigit value).toUpper
      ['\\', 'u', '0', '0', digit (c.toNat / 16), digit (c.toNat % 16)]
    else [c]

/-- A text with escapes. At most `most` quotes stand side by side, `run` of which have been
written; line feeds stay if `lines` is set. -/
def escapeAll (lines : Bool) (most run : Nat) : List Char → List Char
  | [] => []
  | c :: rest =>
    if c = '"' then
      if run < most then '"' :: escapeAll lines most (run + 1) rest
      else '\\' :: '"' :: escapeAll lines most 0 rest
    else if c = '\n' && lines then '\n' :: escapeAll lines most 0 rest
    else escape c ++ escapeAll lines most 0 rest

/-- A text in a style. On several lines, a text with a line feed begins on the second one. -/
def writeText (style : Style) (text : List Char) : List Char :=
  let start := if text.contains '\n' then ['\n'] else []
  match style with
  | .basic => ['"'] ++ escapeAll false 0 0 text ++ ['"']
  | .literal => ['\''] ++ text ++ ['\'']
  | .basicLines => ['"', '"', '"'] ++ start ++ escapeAll true 2 0 text ++ ['"', '"', '"']
  | .literalLines => ['\'', '\'', '\''] ++ start ++ text ++ ['\'', '\'', '\'']

/-- Whether a character may stand in a key without quotes. -/
def isBare (c : Char) : Bool := c.isAlphanum || c == '_' || c == '-'

def writeKey (key : String) : List Char :=
  let text := key.toList
  if !text.isEmpty && text.all isBare then text else writeText (Style.forKey text) text

def writeKeys : List String → List Char
  | [] => []
  | [key] => writeKey key
  | key :: keys => writeKey key ++ '.' :: writeKeys keys

/-! ## Writing values -/

mutual

def Value.write : Value → List Char
  | .string text => writeText (Style.forText text.toList) text.toList
  | .integer value => (toString value).toList
  | .float written => written.toList
  | .bool true => ['t', 'r', 'u', 'e']
  | .bool false => ['f', 'a', 'l', 's', 'e']
  | .date written => written.toList
  | .array elements => '[' :: writeElements elements ++ [']']
  | .table [] => ['{', '}']
  | .table members => '{' :: ' ' :: writeMembers members ++ [' ', '}']

def writeElements : List Value → List Char
  | [] => []
  | [value] => value.write
  | value :: rest => value.write ++ ',' :: ' ' :: writeElements rest

def writeMembers : List (String × Value) → List Char
  | [] => []
  | [(key, value)] => writeKey key ++ [' ', '=', ' '] ++ value.write
  | (key, value) :: rest =>
    writeKey key ++ [' ', '=', ' '] ++ value.write ++ ',' :: ' ' :: writeMembers rest

end

/-- The value of a member: an array of more than one element takes several lines. -/
def writeValue : Value → List Char
  | .array (first :: second :: rest) =>
    '[' :: '\n' :: ((first :: second :: rest).flatMap fun value =>
      [' ', ' ', ' ', ' '] ++ value.write ++ [',', '\n']) ++ [']']
  | value => value.write

def Value.isTable : Value → Bool
  | table _ => true
  | _ => false

def writeLine (member : String × Value) : List Char :=
  writeKey member.1 ++ [' ', '=', ' '] ++ writeValue member.2 ++ ['\n']

mutual

/-- The lines of a table at `path`: a header, which is left out where there are but tables below
it, and the plain members. The tables follow, last. -/
def writeTable (path : List String) : Value → List (List Char)
  | .table members =>
    let plain := members.filter fun member => !member.2.isTable
    let header :=
      if path.isEmpty then [] else '[' :: writeKeys path ++ [']', '\n']
    let block := header ++ plain.flatMap writeLine
    (if plain.isEmpty && (path.isEmpty || !members.isEmpty) then [] else [block]) ++
      writeTables path members
  | _ => []

def writeTables (path : List String) : List (String × Value) → List (List Char)
  | [] => []
  | (key, value) :: rest => writeTable (path ++ [key]) value ++ writeTables path rest

end

/-- A document, with an empty line before every table but the first. -/
def writeDocument (members : List (String × Value)) : String :=
  String.ofList ((writeTable [] (.table members)).intersperse ['\n']).flatten

end BuildTargets.Toml
