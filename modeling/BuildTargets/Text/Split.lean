/-!
# Splitting texts

`split` cuts a text at every separator; `splitEnded` takes a separator at the end as the end of
the last part. Joining the parts gives the text back.
-/

namespace BuildTargets.Text

/-- The stretches of a text between its separators, one more than there are separators. -/
def split (separator : Char) : List Char → List (List Char)
  | [] => [[]]
  | c :: rest =>
    if c = separator then [] :: split separator rest
    else match split separator rest with
      | [] => [[c]]
      | part :: parts => (c :: part) :: parts

/-- The stretches of a text, each of which ends at a separator or at the end of the text. -/
def splitEnded (separator : Char) (text : List Char) : List (List Char) :=
  match (split separator text).reverse with
  | [] :: parts => parts.reverse
  | parts => parts.reverse

def joinWith (separator : Char) : List (List Char) → List Char
  | [] => []
  | [part] => part
  | part :: parts => part ++ separator :: joinWith separator parts

theorem split_ne_nil (separator : Char) (text : List Char) : split separator text ≠ [] := by
  cases text with
  | nil => simp [split]
  | cons c rest =>
    rw [split]
    split
    · simp
    · split <;> simp

theorem joinWith_split (separator : Char) (text : List Char) :
    joinWith separator (split separator text) = text := by
  induction text with
  | nil => rfl
  | cons c rest ih =>
    have hne := split_ne_nil separator rest
    rw [split]
    split
    · rename_i hc
      cases hs : split separator rest with
      | nil => exact absurd hs hne
      | cons part parts => rw [hs] at ih; simp [joinWith, ih, hc]
    · cases hs : split separator rest with
      | nil => exact absurd hs hne
      | cons part parts =>
        rw [hs] at ih
        cases parts with
        | nil => simpa [joinWith] using ih
        | cons next later => simpa [joinWith] using ih

theorem not_mem_of_mem_split {separator : Char} {text part : List Char}
    (h : part ∈ split separator text) : separator ∉ part := by
  induction text generalizing part with
  | nil => simp [split] at h; simp [h]
  | cons c rest ih =>
    rw [split] at h
    split at h
    · rcases List.mem_cons.1 h with rfl | h
      · simp
      · exact ih h
    · rename_i hc
      cases hs : split separator rest with
      | nil => exact absurd hs (split_ne_nil separator rest)
      | cons first later =>
        rw [hs] at h ih
        rcases List.mem_cons.1 h with rfl | h
        · simpa [Ne.symm hc] using ih (List.mem_cons_self ..)
        · exact ih (List.mem_cons_of_mem _ h)

end BuildTargets.Text
