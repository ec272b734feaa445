import BuildTargets.Text.Class

/-!
# Json values and how they are written

Numbers are whole or are kept as they were written, since no record holds another kind. A text
between quotes can name half of a character by an escape; such a text has no meaning and is kept
as it was written too.
-/

namespace BuildTargets.Json

/-- What stands between quotes: a text, or one with half a character, as written. -/
inductive Quoted where
  | text (text : String)
  | broken (written : String)
deriving DecidableEq, Repr

/-- A value. The members of an object keep their order and may repeat a name. -/
inductive Value where
  | null
  | bool (value : Bool)
  | integer (value : Int)
  | real (written : String)
  | string (quoted : Quoted)
  | array (elements : List Value)
  | object (members : List (Quoted × Value))
deriving Repr

def Value.ofText (text : String) : Value := .string (.text text)

def Value.ofMembers (members : List (String × Value)) : Value :=
  .object (members.map fun (name, value) => (.text name, value))

/-! ## Writing -/

/-- A character between quotes: quotes, backslashes and control characters are escaped. -/
def writeChar (c : Char) : List Char :=
  match c with
  | '"' => ['\\', '"']
  | '\\' => ['\\', '\\']
  | '\n' => ['\\', 'n']
  | '\r' => ['\\', 'r']
  | '\t' => ['\\', 't']
  | '\x08' => ['\\', 'b']
  | '\x0c' => ['\\', 'f']
  | c =>
    if c.toNat < 0x20 then
      ['\\', 'u', '0', '0', Text.hexDigit (c.toNat / 16), Text.hexDigit (c.toNat % 16)]
    else [c]

def Quoted.write : Quoted → List Char
  | text content => '"' :: content.toList.flatMap writeChar ++ ['"']
  | broken written => '"' :: written.toList ++ ['"']

/-- What is written between the parts of a value: `line depth` begins a line inside `depth`
brackets, and `colon` divides a name from its value. -/
structure Layout where
  line : Nat → List Char
  colon : List Char

/-- Everything on one line, without blanks. -/
def Layout.compact : Layout := ⟨fun _ => [], [':']⟩

/-- One element a line, indented by two blanks for every bracket. -/
def Layout.pretty : Layout :=
  ⟨fun depth => '\n' :: List.replicate (2 * depth) ' ', [':', ' ']⟩

mutual

/-- A value in a layout, inside `depth` brackets. -/
def Value.write (layout : Layout) (depth : Nat) : Value → List Char
  | .null => ['n', 'u', 'l', 'l']
  | .bool true => ['t', 'r', 'u', 'e']
  | .bool false => ['f', 'a', 'l', 's', 'e']
  | .integer value => (toString value).toList
  | .real written => written.toList
  | .string quoted => quoted.write
  | .array [] => ['[', ']']
  | .array (first :: rest) =>
    '[' :: layout.line (depth + 1) ++ first.write layout (depth + 1) ++
      writeElements layout (depth + 1) rest ++ layout.line depth ++ [']']
  | .object [] => ['{', '}']
  | .object ((name, value) :: rest) =>
    '{' :: layout.line (depth + 1) ++ name.write ++ layout.colon ++
      value.write layout (depth + 1) ++ writeMembers layout (depth + 1) rest ++
      layout.line depth ++ ['}']

def writeElements (layout : Layout) (depth : Nat) : List Value → List Char
  | [] => []
  | value :: rest =>
    ',' :: layout.line depth ++ value.write layout depth ++ writeElements layout depth rest

def writeMembers (layout : Layout) (depth : Nat) : List (Quoted × Value) → List Char
  | [] => []
  | (name, value) :: rest =>
    ',' :: layout.line depth ++ name.write ++ layout.colon ++ value.write layout depth ++
      writeMembers layout depth rest

end

def Value.compact (value : Value) : String := String.ofList (value.write .compact 0)

def Value.pretty (value : Value) : String := String.ofList (value.write .pretty 0)

end BuildTargets.Json
