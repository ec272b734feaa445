import BuildTargets.Text.Cursor
import BuildTargets.Text.Split

/-!
# Places between characters

A cursor is determined by the characters on its two sides: `Cursor.between` makes it from them.
The lines of a text are what lies between its line feeds: `behindLine above` is
what a line has behind it, the lines above with the nearest first, and `aheadLine below` is what
it has ahead.
-/

namespace BuildTargets.Text

theorem width_cons_ne (c : Char) (cs : List Char) : (width (c :: cs) = width cs) = False := by
  have := c.utf8Size_pos
  rw [width_cons, eq_iff_iff, iff_false]
  omega

namespace Cursor

/-- The place between some characters, the nearest first, and those that follow. -/
def between (behind ahead : List Char) : Cursor := ⟨behind, ahead, width behind, rfl⟩

@[simp] theorem behind_between (behind ahead : List Char) :
    (between behind ahead).behind = behind := rfl

@[simp] theorem ahead_between (behind ahead : List Char) :
    (between behind ahead).ahead = ahead := rfl

@[simp] theorem offset_between (behind ahead : List Char) :
    (between behind ahead).offset = width behind := rfl

@[simp] theorem step_between (behind ahead rest : List Char) (c : Char) :
    (between behind ahead).step c rest = between (c :: behind) rest := by
  simp [between, step, Nat.add_comm]

theorem start_eq_between (text : List Char) : start text = between [] text := rfl

theorem takeTo_width (offset : Nat) (w rest : List Char) :
    takeTo offset (offset + width w) (w ++ rest) = w := by
  induction w generalizing offset with
  | nil => cases rest <;> simp [takeTo]
  | cons c w ih =>
    have later := ih (offset + c.utf8Size)
    rw [Nat.add_assoc] at later
    have := c.utf8Size_pos
    rw [List.cons_append, takeTo, if_neg (by rw [width_cons]; omega), width_cons, later]

/-- The text up to a later place is what was passed on the way. -/
@[simp] theorem textTo_between (behind w rest : List Char) :
    (between behind (w ++ rest)).textTo (between (w.reverse ++ behind) rest) = w := by
  unfold textTo
  rw [offset_between, offset_between, ahead_between, width_append, width_reverse, Nat.add_comm]
  exact takeTo_width (width behind) w rest

theorem seekFrom_between (behind w rest : List Char) :
    (between behind (w ++ rest)).seekFrom (width w + width behind) (w ++ rest) =
      between (w.reverse ++ behind) rest := by
  induction w generalizing behind with
  | nil => cases rest <;> simp [seekFrom]
  | cons c w ih =>
    have later := ih (c :: behind)
    have := c.utf8Size_pos
    rw [List.cons_append, seekFrom, if_neg (by simp; omega), step_between]
    rw [width_cons] at later ⊢
    rw [show c.utf8Size + width w + width behind = width w + (c.utf8Size + width behind) by omega,
      later]
    simp

theorem seek_between (behind w rest : List Char) :
    (between behind (w ++ rest)).seek (width (w.reverse ++ behind)) =
      between (w.reverse ++ behind) rest := by
  rw [width_append, width_reverse]
  exact seekFrom_between behind w rest

theorem width_eq_zero {w : List Char} (h : width w = 0) : w = [] := by
  cases w with
  | nil => rfl
  | cons c w =>
    have := c.utf8Size_pos
    rw [width_cons] at h
    omega

/-- Seeking the offset of a later place of the same text leads to that place. -/
theorem seek_eq {here stop : Cursor} (same : stop.text = here.text)
    (later : here.offset ≤ stop.offset) : here.seek stop.offset = stop := by
  obtain ⟨back, ahead, _, rfl⟩ := here
  obtain ⟨back', ahead', _, rfl⟩ := stop
  show (between back ahead).seek (width back') = between back' ahead'
  simp only [text] at same later
  rcases List.append_eq_append_iff.1 same with ⟨w, behind_eq, ahead_eq⟩ | ⟨w, behind_eq, ahead_eq⟩
  · -- The later place would lie behind the earlier one.
    have total : back = w.reverse ++ back' := by
      rw [← List.reverse_reverse back, behind_eq, List.reverse_append, List.reverse_reverse]
    have empty : w = [] := by
      rw [total, width_append, width_reverse] at later
      exact width_eq_zero (by omega)
    subst empty
    simp only [List.reverse_nil, List.nil_append] at total ahead_eq
    subst total ahead_eq
    exact seek_between _ [] _
  · have total : back' = w.reverse ++ back := by
      rw [← List.reverse_reverse back', behind_eq, List.reverse_append, List.reverse_reverse]
    subst total ahead_eq
    exact seek_between back w ahead'

end Cursor

/-! ## Lines -/

/-- What lies before a line, nearest first, if these are the lines above it, nearest first. -/
def behindLine (above : List (List Char)) : List Char :=
  above.flatMap fun line => '\n' :: line.reverse

/-- What follows a line, if these are the lines below it. -/
def aheadLine (below : List (List Char)) : List Char := below.flatMap fun line => '\n' :: line

@[simp] theorem behindLine_nil : behindLine [] = [] := rfl

@[simp] theorem behindLine_cons (line : List Char) (above : List (List Char)) :
    behindLine (line :: above) = '\n' :: (line.reverse ++ behindLine above) := rfl

@[simp] theorem aheadLine_nil : aheadLine [] = [] := rfl

@[simp] theorem aheadLine_cons (line : List Char) (below : List (List Char)) :
    aheadLine (line :: below) = '\n' :: (line ++ aheadLine below) := rfl

theorem joinWith_lines (line : List Char) (below : List (List Char)) :
    joinWith '\n' (line :: below) = line ++ aheadLine below := by
  induction below generalizing line with
  | nil => simp [joinWith]
  | cons next below ih => rw [joinWith, ih, aheadLine_cons]; simp

theorem behindLine_dropWhile (above : List (List Char)) :
    (behindLine above).dropWhile (· != '\n') = behindLine above := by
  cases above <;> simp

theorem beforeLine_between {w : List Char} (h : '\n' ∉ w) (above : List (List Char))
    (rest : List Char) :
    (Cursor.between (w.reverse ++ behindLine above) rest).beforeLine = behindLine above := by
  unfold Cursor.beforeLine
  rw [Cursor.behind_between, List.dropWhile_append_of_pos, behindLine_dropWhile]
  intro c hc
  rw [List.mem_reverse] at hc
  simp only [bne_iff_ne, ne_eq]
  rintro rfl
  exact h hc

end BuildTargets.Text
