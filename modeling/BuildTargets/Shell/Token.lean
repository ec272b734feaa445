/-!
# Words and signs of shell scripts

A script is read into tokens: words, which are made of glyphs, signs between commands, and
redirections of streams. Quotes are resolved here; what a `$` stands for is worked out when a
command runs.
-/

namespace BuildTargets.Shell

/-- A part of a word. `quotes` marks quotes, which make a word even around nothing; `other` is
what a value without text is replaced by. -/
inductive Glyph where
  | char (c : Char) (quoted : Bool)
  | quotes
  | value (name other : String) (quoted : Bool)
  | output (script : String) (quoted : Bool)
  | sum (expression : String)
deriving DecidableEq, Repr

abbrev Word := List Glyph

inductive Sign where
  | semicolon
  | semicolons
  | newline
  | both
  | either
  | pipe
  | opened
  | closed
deriving DecidableEq, Repr

def Sign.text : Sign → String
  | semicolon => ";"
  | semicolons => ";;"
  | newline => "newline"
  | both => "&&"
  | either => "||"
  | pipe => "|"
  | opened => "("
  | closed => ")"

/-- What happens to a stream of a command: it goes to a file, from its start or its end, or comes
from one, or goes where another stream goes. The file is named by the word that follows. -/
inductive Route where
  | toFile (append : Bool)
  | fromFile
  | toStream (number : Char)
deriving DecidableEq, Repr

inductive Token where
  | word (word : Word)
  | sign (sign : Sign)
  | route (stream : Char) (route : Route)
deriving DecidableEq, Repr

inductive ScriptFault where
  | unclosedQuote
  | unexpected (what : String)
  | ended (expected : Option String)
  | unclosedBrace
  | substitution
deriving DecidableEq, Repr

def ScriptFault.message : ScriptFault → String
  | unclosedQuote => "Syntax error: Unterminated quoted string"
  | unexpected what => "Syntax error: " ++ what ++ " unexpected"
  | ended none => "Syntax error: end of file unexpected"
  | ended (some word) =>
    "Syntax error: end of file unexpected (expecting \"" ++ word ++ "\")"
  | unclosedBrace => "Syntax error: Missing '\x7d'"
  | substitution => "Bad substitution"

/-! ## What a dollar sign begins -/

def isNameStart (c : Char) : Bool := c.isAlpha || c == '_'

def isNamePart (c : Char) : Bool := c.isAlphanum || c == '_'

/-- The text up to the parenthesis that closes `depth` open ones, and what follows it. Those
between quotes do not count. -/
def toClosing (depth : Nat) (quote : Option Char) : List Char → Option (List Char × List Char)
  | [] => none
  | '\\' :: c :: rest =>
    (toClosing depth quote rest).map fun (inside, after) => ('\\' :: c :: inside, after)
  | c :: rest =>
    let go := fun (depth : Nat) (quote : Option Char) =>
      (toClosing depth quote rest).map fun (inside, after) => (c :: inside, after)
    match quote with
    | some q => if c = q then go depth none else go depth quote
    | none =>
      if c = '\'' || c = '"' then go depth (some c)
      else if c = '(' then go (depth + 1) none
      else if c = ')' then
        if depth ≤ 1 then some ([], rest) else go (depth - 1) none
      else go depth none

/-- What a pair of parentheses behind a dollar sign stands for: a sum between two pairs, otherwise
the output of a script. -/
def glyphOfParentheses (inside : List Char) (quoted : Bool) : Glyph :=
  match inside, inside.getLast? with
  | '(' :: rest, some ')' => .sum (String.ofList rest.dropLast)
  | _, _ => .output (String.ofList inside) quoted

/-- Whether a character means something in a text that stands in for a value. -/
def isSpecial (c : Char) : Bool :=
  c == '$' || c == '\'' || c == '"' || c == '\\' || c == '\x60' || c == '\x7b'

/-- Reads what follows a dollar sign; without a name there the sign stands for itself. -/
def readDollar (quoted : Bool) (chars : List Char) : Except ScriptFault (Glyph × List Char) :=
  match chars with
  | '(' :: rest =>
    match toClosing 1 none rest with
    | some (inside, after) => .ok (glyphOfParentheses inside quoted, after)
    | none => .error (.ended (some ")"))
  | '\x7b' :: rest =>
    let name := rest.takeWhile isNamePart
    let other := fun (rest : List Char) =>
      let text := rest.takeWhile (· != '\x7d')
      match rest.drop text.length with
      | _ :: after =>
        if name.isEmpty || text.any isSpecial then .error .substitution
        else .ok (.value (String.ofList name) (String.ofList text) quoted, after)
      | [] => .error .unclosedBrace
    match rest.drop name.length with
    | '\x7d' :: after =>
      if name.isEmpty then .error .substitution
      else .ok (.value (String.ofList name) "" quoted, after)
    | ':' :: '-' :: rest => other rest
    | '-' :: rest => other rest
    | [] => .error .unclosedBrace
    | _ => .error .substitution
  | c :: rest =>
    if isNameStart c then
      let name := (c :: rest).takeWhile isNamePart
      .ok (.value (String.ofList name) "" quoted, (c :: rest).drop name.length)
    else if c.isDigit || c = '?' || c = '#' || c = '*' || c = '@' then
      .ok (.value c.toString "" quoted, rest)
    else .ok (.char '$' quoted, chars)
  | [] => .ok (.char '$' quoted, [])

/-- Reads what follows a back quote: a script up to the next one. -/
def readBackQuote (quoted : Bool) (chars : List Char) : Except ScriptFault (Glyph × List Char) :=
  match chars.dropWhile (· != '\x60') with
  | _ :: after => .ok (.output (String.ofList (chars.takeWhile (· != '\x60'))) quoted, after)
  | [] => .error .unclosedQuote

/-! ## Tokens -/

/-- What the characters at hand stand in. -/
inductive Quote where
  | plain
  | single
  | double
  | comment
deriving DecidableEq

/-- Ends the word that was being read, whose glyphs are listed last first. -/
def endWord (word : Option Word) : List Token :=
  match word with
  | some glyphs => [.word glyphs.reverse]
  | none => []

def pushGlyph (word : Option Word) (glyph : Glyph) : Option Word := some (glyph :: word.getD [])

/-- The redirection that a text begins with, for a stream or for the one that it is usual for,
and what follows. -/
def readRoute (stream : Option Char) : List Char → Option (Token × List Char)
  | '>' :: '&' :: number :: rest => some (.route (stream.getD '1') (.toStream number), rest)
  | '<' :: '&' :: number :: rest => some (.route (stream.getD '0') (.toStream number), rest)
  | '>' :: '>' :: rest => some (.route (stream.getD '1') (.toFile true), rest)
  | '>' :: '|' :: rest => some (.route (stream.getD '1') (.toFile false), rest)
  | '>' :: rest => some (.route (stream.getD '1') (.toFile false), rest)
  | '<' :: rest => some (.route (stream.getD '0') .fromFile, rest)
  | _ => none

def readSign : List Char → Option (Sign × List Char)
  | '&' :: '&' :: rest => some (.both, rest)
  | '|' :: '|' :: rest => some (.either, rest)
  | '&' :: rest => some (.semicolon, rest)
  | '|' :: rest => some (.pipe, rest)
  | ';' :: ';' :: rest => some (.semicolons, rest)
  | ';' :: rest => some (.semicolon, rest)
  | '\n' :: rest => some (.newline, rest)
  | '(' :: rest => some (.opened, rest)
  | ')' :: rest => some (.closed, rest)
  | _ => none

/-- Reads a script into tokens. The fuel is above the number of characters. -/
def readTokens : (fuel : Nat) → Quote → Option Word → List Char → Except ScriptFault (List Token)
  | 0, _, _, _ => .error (.ended none)
  | fuel + 1, quote, word, chars =>
    let go := readTokens fuel
    match quote, chars with
    | .plain, [] => .ok (endWord word)
    | .comment, [] => .ok []
    | _, [] => .error .unclosedQuote
    | .comment, '\n' :: rest => go .plain none ('\n' :: rest)
    | .comment, _ :: rest => go .comment none rest
    | .single, '\'' :: rest => go .plain word rest
    | .single, c :: rest => go .single (pushGlyph word (.char c true)) rest
    | .double, '"' :: rest => go .plain word rest
    | .double, '$' :: rest => do
      let (glyph, rest) ← readDollar true rest
      go .double (pushGlyph word glyph) rest
    | .double, '\x60' :: rest => do
      let (glyph, rest) ← readBackQuote true rest
      go .double (pushGlyph word glyph) rest
    | .double, '\\' :: '\n' :: rest => go .double word rest
    | .double, '\\' :: c :: rest =>
      if c = '"' || c = '\\' || c = '$' || c = '\x60' then
        go .double (pushGlyph word (.char c true)) rest
      else go .double (pushGlyph (pushGlyph word (.char '\\' true)) (.char c true)) rest
    | .double, c :: rest => go .double (pushGlyph word (.char c true)) rest
    | .plain, '\'' :: rest => go .single (pushGlyph word .quotes) rest
    | .plain, '"' :: rest => go .double (pushGlyph word .quotes) rest
    | .plain, '$' :: rest => do
      let (glyph, rest) ← readDollar false rest
      go .plain (pushGlyph word glyph) rest
    | .plain, '\x60' :: rest => do
      let (glyph, rest) ← readBackQuote false rest
      go .plain (pushGlyph word glyph) rest
    | .plain, '\\' :: '\n' :: rest => go .plain word rest
    | .plain, '\\' :: c :: rest => go .plain (pushGlyph word (.char c true)) rest
    | .plain, c :: rest =>
      match readRoute none (c :: rest), readSign (c :: rest) with
      | some (token, rest), _ => return endWord word ++ token :: (← go .plain none rest)
      | none, some (sign, rest) => return endWord word ++ .sign sign :: (← go .plain none rest)
      | none, none =>
        if c = ' ' || c = '\t' then return endWord word ++ (← go .plain none rest)
        else if c = '#' && word.isNone then go .comment none rest
        else match (if c.isDigit && word.isNone then readRoute (some c) rest else none) with
          | some (token, rest) => return token :: (← go .plain none rest)
          | none => go .plain (pushGlyph word (.char c false)) rest

def tokens (text : String) : Except ScriptFault (List Token) :=
  readTokens (2 * text.length + 2) .plain none text.toList

end BuildTargets.Shell
