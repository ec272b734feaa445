/-!
# Places in a text

Offsets count bytes of UTF-8. A `Cursor` is a place between two characters with both sides in
view; it always stands on a character boundary.
-/

namespace BuildTargets.Text

/-- The number of bytes a text takes. -/
def width : List Char → Nat
  | [] => 0
  | c :: cs => c.utf8Size + width cs

@[simp] theorem width_nil : width [] = 0 := rfl

@[simp] theorem width_cons (c : Char) (cs : List Char) :
    width (c :: cs) = c.utf8Size + width cs := rfl

@[simp] theorem width_append (a b : List Char) : width (a ++ b) = width a + width b := by
  induction a with
  | nil => simp
  | cons c cs ih => simp [ih, Nat.add_assoc]

@[simp] theorem width_reverse (cs : List Char) : width cs.reverse = width cs := by
  induction cs with
  | nil => rfl
  | cons c cs ih => simp [ih, Nat.add_comm]

/-- A place in a text: the characters before it, nearest first, and those after it. -/
structure Cursor where
  behind : List Char
  ahead : List Char
  offset : Nat
  offset_eq : offset = width behind

namespace Cursor

def start (text : List Char) : Cursor := ⟨[], text, 0, rfl⟩

/-- The place behind the next character `c`, where the text goes on with `rest`. -/
def step (here : Cursor) (c : Char) (rest : List Char) : Cursor :=
  ⟨c :: here.behind, rest, here.offset + c.utf8Size, by
    simp [here.offset_eq, Nat.add_comm]⟩

def text (here : Cursor) : List Char := here.behind.reverse ++ here.ahead

theorem text_step {here : Cursor} {c : Char} {rest : List Char} (h : here.ahead = c :: rest) :
    (here.step c rest).text = here.text := by
  simp [text, step, h]

/-- Moves forward from `here` to the first boundary at or behind byte `target`, if the text is
that long; `ahead` is what lies before `here`. -/
def seekFrom (here : Cursor) (target : Nat) : (ahead : List Char) → Cursor
  | [] => here
  | c :: rest => if target ≤ here.offset then here else (here.step c rest).seekFrom target rest

/-- The first boundary at or behind byte `target` of a text, its end if there is none. -/
def seek (here : Cursor) (target : Nat) : Cursor := here.seekFrom target here.ahead

/-- The part of a text that begins at byte `offset`, up to byte `stop`. -/
def takeTo (offset stop : Nat) : List Char → List Char
  | [] => []
  | c :: rest => if stop ≤ offset then [] else c :: takeTo (offset + c.utf8Size) stop rest

/-- The characters from one place of a text to a later one. -/
def textTo (here stop : Cursor) : List Char := takeTo here.offset stop.offset here.ahead

/-- What lies before the line of the cursor, nearest first. -/
def beforeLine (here : Cursor) : List Char := here.behind.dropWhile (· != '\n')

/-- The offset of the line that the cursor stands on. -/
def lineStart (here : Cursor) : Nat :=
  here.offset - width (here.behind.takeWhile (· != '\n'))

theorem lineStart_eq (here : Cursor) : here.lineStart = width here.beforeLine := by
  have h : width here.behind = width (here.behind.takeWhile (· != '\n')) +
      width (here.behind.dropWhile (· != '\n')) := by
    rw [← width_append, List.takeWhile_append_dropWhile]
  simp [lineStart, beforeLine, here.offset_eq, h]

end Cursor

/-- Whether the characters before the start of a line, nearest first, end in a backslash once one
line feed and then one carriage return are taken off: the line then goes on the one before. -/
def isContinuation (before : List Char) : Bool :=
  let line := match before with
    | '\n' :: rest => rest
    | _ => before
  let line := match line with
    | '\r' :: rest => rest
    | _ => line
  line.head? == some '\\'

end BuildTargets.Text
