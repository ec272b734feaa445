import BuildTargets.Path
import BuildTargets.Text.Split

/-!
# Documents and their lines

A document is a text with the path it was read from. Lines end at line feeds; a carriage return
directly before the line feed, or at the end of the text, belongs to the end of its line. Every
text has at least one line, and a final line feed is followed by one more, empty line.
-/

namespace BuildTargets

open Text

/-! ## Line ends -/

inductive EndOfLine where
  | lf
  | crlf
deriving DecidableEq, Repr

def EndOfLine.text : EndOfLine → String
  | lf => "\n"
  | crlf => "\r\n"

/-- The convention of the first line that ends, given the character before the text. -/
def EndOfLine.detectFrom (previous : Option Char) : List Char → EndOfLine
  | [] => lf
  | c :: rest =>
    if c = '\n' then if previous = some '\r' then crlf else lf else detectFrom (some c) rest

/-- The convention of the first line that ends; line feeds alone if there is none. -/
def EndOfLine.detect (text : String) : EndOfLine := detectFrom none text.toList

/-! ## Lines -/

/-- A line of a text: its number from 0, and where it lies without its end, in bytes. -/
structure Line where
  number : Nat
  text : String
  start : Nat
  stop : Nat
deriving DecidableEq, Repr

/-- A line without one carriage return at its end. -/
def dropReturn (line : List Char) : List Char :=
  if line.getLast? = some '\r' then line.dropLast else line

/-- Consecutive lines, the first with the given number and offset. -/
def linesFrom (number offset : Nat) : List (List Char) → List Line
  | [] => []
  | raw :: rest =>
    let text := dropReturn raw
    ⟨number, String.ofList text, offset, offset + width text⟩ ::
      linesFrom (number + 1) (offset + width raw + 1) rest

def linesOf (text : List Char) : List Line := linesFrom 0 0 (split '\n' text)

/-- The number of line feeds before byte `offset` of a text that begins at byte `start`. -/
def lineFeedsBefore (offset start : Nat) : List Char → Nat
  | [] => 0
  | c :: rest =>
    if offset ≤ start then 0
    else (if c = '\n' then 1 else 0) + lineFeedsBefore offset (start + c.utf8Size) rest

/-! ## Documents -/

structure Document where
  path : Path
  text : String
deriving DecidableEq, Repr

namespace Document

def chars (document : Document) : List Char := document.text.toList

def lines (document : Document) : List Line := linesOf document.chars

/-- The number of the line that a byte lies on; offsets behind the end count as the end. -/
def lineNumber (document : Document) (offset : Nat) : Nat :=
  lineFeedsBefore offset 0 document.chars

def line? (document : Document) (number : Nat) : Option Line := document.lines[number]?

def lineAt (document : Document) (offset : Nat) : Line :=
  let number := document.lineNumber offset
  (document.line? number).getD
    ⟨number, "", width document.chars, width document.chars⟩

def endOfLine (document : Document) : EndOfLine := EndOfLine.detect document.text

end Document

end BuildTargets
