import BuildTargets.Text.Cursor

/-!
# Later places

A cursor passes some characters when it goes forward over them: they change sides, and the text
stays. A later place of a text is one that is reached over some characters.
-/

namespace BuildTargets.Text.Cursor

/-- `there` is the place behind the characters `w`, which follow `here`. -/
structure Passes (here : Cursor) (w : List Char) (there : Cursor) : Prop where
  ahead : here.ahead = w ++ there.ahead
  behind : there.behind = w.reverse ++ here.behind

namespace Passes

variable {here mid there : Cursor} {v w : List Char}

theorem refl (here : Cursor) : here.Passes [] here := ⟨rfl, rfl⟩

theorem trans (first : here.Passes v mid) (second : mid.Passes w there) :
    here.Passes (v ++ w) there where
  ahead := by rw [first.ahead, second.ahead, List.append_assoc]
  behind := by rw [second.behind, first.behind, List.reverse_append, List.append_assoc]

theorem step {c : Char} {rest : List Char} (h : here.ahead = c :: rest) :
    here.Passes [c] (here.step c rest) := ⟨h, rfl⟩

theorem text_eq (h : here.Passes w there) : there.text = here.text := by
  rw [Cursor.text, Cursor.text, h.ahead, h.behind, List.reverse_append, List.reverse_reverse,
    List.append_assoc]

theorem offset_eq (h : here.Passes w there) : there.offset = here.offset + width w := by
  rw [there.offset_eq, here.offset_eq, h.behind, width_append, width_reverse, Nat.add_comm]

theorem length_eq (h : here.Passes w there) :
    here.ahead.length = w.length + there.ahead.length := by
  rw [h.ahead, List.length_append]

theorem length_le (h : here.Passes w there) : there.ahead.length ≤ here.ahead.length := by
  rw [h.length_eq]
  exact Nat.le_add_left _ _

/-- What leads to another byte has taken a character. -/
theorem length_lt (h : here.Passes w there) (moved : there.offset ≠ here.offset) :
    there.ahead.length < here.ahead.length := by
  have taken : w ≠ [] := by
    rintro rfl
    exact moved h.offset_eq
  have := List.length_pos_iff.2 taken
  rw [h.length_eq]
  omega

end Passes

/-- `there` is `here` or a later place of the same text. -/
def Reaches (here there : Cursor) : Prop := ∃ w, here.Passes w there

namespace Reaches

variable {here mid there : Cursor}

theorem refl (here : Cursor) : here.Reaches here := ⟨[], .refl here⟩

theorem trans (first : here.Reaches mid) (second : mid.Reaches there) : here.Reaches there :=
  let ⟨_, passes⟩ := first
  let ⟨_, passes'⟩ := second
  ⟨_, passes.trans passes'⟩

theorem text_eq (h : here.Reaches there) : there.text = here.text :=
  let ⟨_, passes⟩ := h
  passes.text_eq

theorem offset_le (h : here.Reaches there) : here.offset ≤ there.offset := by
  obtain ⟨w, passes⟩ := h
  rw [passes.offset_eq]
  exact Nat.le_add_right _ _

end Reaches

theorem offset_le_width (here : Cursor) : here.offset ≤ width here.text := by
  rw [text, width_append, width_reverse, here.offset_eq]
  exact Nat.le_add_right _ _

/-! ## Seeking a byte -/

theorem reaches_seekFrom {here : Cursor} {ahead : List Char} (rest : here.ahead = ahead)
    (target : Nat) : here.Reaches (here.seekFrom target ahead) := by
  induction ahead generalizing here with
  | nil => exact .refl here
  | cons c ahead ih =>
    rw [seekFrom]
    split
    · exact .refl here
    · exact .trans ⟨[c], .step rest⟩ (ih rfl)

theorem le_offset_seekFrom {here : Cursor} {ahead : List Char} (rest : here.ahead = ahead)
    {target : Nat} (within : target ≤ width here.text) :
    target ≤ (here.seekFrom target ahead).offset := by
  induction ahead generalizing here with
  | nil =>
    rw [text, rest, List.append_nil, width_reverse, ← here.offset_eq] at within
    exact within
  | cons c ahead ih =>
    rw [seekFrom]
    split
    · assumption
    · exact ih rfl ((text_step rest).symm ▸ within)

theorem reaches_seek (here : Cursor) (target : Nat) : here.Reaches (here.seek target) :=
  reaches_seekFrom rfl target

theorem le_offset_seek {here : Cursor} {target : Nat} (within : target ≤ width here.text) :
    target ≤ (here.seek target).offset :=
  le_offset_seekFrom rfl within

theorem Reaches.seek_congr {here there : Cursor} {target : Nat} (h : here.Reaches there)
    (le : there.offset ≤ target) : here.seek target = there.seek target := by
  obtain ⟨w, passes⟩ := h
  induction w generalizing here with
  | nil =>
    obtain ⟨back, ahead, _, rfl⟩ := here
    obtain ⟨back', ahead', _, rfl⟩ := there
    obtain ⟨same, same'⟩ := passes
    dsimp only [List.nil_append, List.reverse_nil] at same same'
    rw [same, same']
  | cons c w ih =>
    have front : here.ahead = c :: (w ++ there.ahead) := passes.ahead
    have short : ¬ target ≤ here.offset := by
      have further := passes.offset_eq
      have := c.utf8Size_pos
      rw [width_cons] at further
      omega
    have later : (here.step c (w ++ there.ahead)).Passes w there := ⟨rfl, by
      rw [passes.behind, List.reverse_cons, List.append_assoc]
      rfl⟩
    rw [← ih later, seek, front, seekFrom, if_neg short]
    rfl

end BuildTargets.Text.Cursor
