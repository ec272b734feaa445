import BuildTargets.Template
import BuildTargets.Proofs.Pattern.Run

/-!
# One pass over a template

A slot is a name of letters between angle brackets. `fill` goes over a template once, from left to
right: a slot that calls a placeholder gives way to its value, any other slot and any other
character stays as it is. Rendering, which searches for a pattern, comes to the same. So a template
can be rendered in parts wherever it is not cut inside a slot, and what is put in is not read again.
-/

namespace BuildTargets.Template

open Text Pattern

/-! ## Slots -/

/-- The name in the slot that a text begins with, and what follows the slot. -/
def slot? : List Char → Option (List Char × List Char)
  | '<' :: rest =>
    let name := rest.takeWhile Char.isAlpha
    match rest.dropWhile Char.isAlpha with
    | '>' :: behind => if name = [] then none else some (name, behind)
    | _ => none
  | _ => none

theorem slot?_eq_some_iff {text name behind : List Char} :
    slot? text = some (name, behind) ↔ name ≠ [] ∧ (∀ c ∈ name, c.isAlpha = true) ∧
      text = '<' :: (name ++ '>' :: behind) := by
  constructor
  · intro h
    unfold slot? at h
    split at h
    · next rest =>
      dsimp only at h
      split at h
      · next later closed =>
        split at h
        · cases h
        · next named =>
          cases h
          refine ⟨named, List.all_eq_true.1 List.all_takeWhile, ?_⟩
          rw [← closed, List.takeWhile_append_dropWhile]
      · cases h
    · cases h
  · rintro ⟨named, letters, rfl⟩
    have name_eq : (name ++ '>' :: behind).takeWhile Char.isAlpha = name := by
      rw [List.takeWhile_append_of_pos letters, List.takeWhile_cons_of_neg (by decide),
        List.append_nil]
    have rest_eq : (name ++ '>' :: behind).dropWhile Char.isAlpha = '>' :: behind := by
      rw [List.dropWhile_append_of_pos letters, List.dropWhile_cons_of_neg (by decide)]
    simp only [slot?, name_eq, rest_eq, if_neg named]

theorem length_lt_of_slot? {text name behind : List Char} (h : slot? text = some (name, behind)) :
    behind.length < text.length := by
  obtain ⟨-, -, rfl⟩ := slot?_eq_some_iff.1 h
  simp only [List.length_cons, List.length_append]
  omega

/-- The value of the placeholder that a name calls; a name that calls none stays in its slot. -/
def valueOf (target : Occurrence) (name : List Char) : List Char :=
  match Placeholder.ofText? (String.ofList name) with
  | some placeholder => (placeholder.value target).toList
  | none => '<' :: (name ++ ['>'])

/-- A template with its slots filled in, from left to right. -/
def fill (target : Occurrence) (template : List Char) : List Char :=
  match _h : slot? template with
  | some (name, behind) => valueOf target name ++ fill target behind
  | none =>
    match template with
    | [] => []
    | c :: rest => c :: fill target rest
termination_by template.length
decreasing_by
  · exact length_lt_of_slot? _h
  · exact Nat.lt_succ_self _

theorem fill_of_slot? {target : Occurrence} {template name behind : List Char}
    (h : slot? template = some (name, behind)) :
    fill target template = valueOf target name ++ fill target behind := by
  rw [fill.eq_def]
  split <;> simp_all

theorem fill_nil (target : Occurrence) : fill target [] = [] := by
  rw [fill.eq_def]
  rfl

theorem fill_cons {target : Occurrence} {c : Char} {rest : List Char}
    (h : slot? (c :: rest) = none) : fill target (c :: rest) = c :: fill target rest := by
  rw [fill.eq_def]
  split <;> simp_all

/-! ## Matches of the placeholder pattern -/

theorem contains_asciiAlpha : CharSet.asciiAlpha.contains = Char.isAlpha := by
  funext c
  have upper : c.isUpper = ('A' ≤ c && c ≤ 'Z') := Bool.decide_and _ _
  show (('A' ≤ c && c ≤ 'Z') || ('a' ≤ c && c ≤ 'z')) = (c.isUpper || c.isLower)
  rw [upper]
  rfl

def slotFound (behind name rest : List Char) : Found where
  whole := .covering behind ('<' :: (name ++ ['>'])) rest
  groups := [(nameGroup, .covering ('<' :: behind) name ('>' :: rest))]

/-- Behind a bracket the letters are taken whole: less of them is not followed by a bracket. -/
theorem run_letters {limit : Nat} (behind rest : List Char) (k : Progress → Option Found)
    (long : rest.length ≤ limit) :
    run limit (.seq (.group nameGroup (.someOf CharSet.asciiAlpha)) (.char '>'))
        ⟨.between behind rest, []⟩ k =
      let name := rest.takeWhile Char.isAlpha
      let later := rest.dropWhile Char.isAlpha
      if name = [] then none
      else run limit (.char '>') ⟨.between (name.reverse ++ behind) later,
        [(nameGroup, .covering behind name later)]⟩ k := by
  have stop : CharSet.asciiAlpha.holds (rest.dropWhile Char.isAlpha).head? = false := by
    have outside := List.head?_dropWhile_not Char.isAlpha rest
    cases ahead : (rest.dropWhile Char.isAlpha).head? with
    | none => rfl
    | some c =>
      rw [ahead] at outside
      rwa [CharSet.holds, contains_asciiAlpha]
  have inside : ∀ c ∈ rest.takeWhile Char.isAlpha, CharSet.asciiAlpha.contains c = true := by
    rw [contains_asciiAlpha]
    exact List.all_eq_true.1 List.all_takeWhile
  have short := Nat.le_trans (List.takeWhile_sublist Char.isAlpha (l := rest)).length_le long
  have parts := List.takeWhile_append_dropWhile (p := Char.isAlpha) (l := rest)
  dsimp only
  generalize rest.takeWhile Char.isAlpha = name at *
  generalize rest.dropWhile Char.isAlpha = later at *
  subst parts
  cases name with
  | nil => rw [if_pos rfl, run_seq, run_group, List.nil_append, run_someOf_of_not_holds stop]
  | cons c w =>
    rw [if_neg (List.cons_ne_nil c w), run_seq, run_group]
    refine run_someOf inside stop (fun u x split => ?_) (Nat.le_of_succ_le short)
    refine longest_of_stuck (k := fun next => run limit (.char '>') ⟨next.here,
      (nameGroup, ⟨.between behind (c :: w ++ later), next.here⟩) :: next.groups⟩ k)
      inside (fun letter => run_char_of_ne ?_) (c :: u) x (by rw [split]; rfl)
    rintro rfl
    exact absurd letter (by decide)

theorem matchAt?_pattern {limit : Nat} (behind ahead : List Char) (long : ahead.length ≤ limit) :
    pattern.matchAt? limit (.between behind ahead) =
      (slot? ahead).map fun slot => slotFound behind slot.1 slot.2 := by
  have parts : pattern = .seq (.char '<')
      (.seq (.group nameGroup (.someOf CharSet.asciiAlpha)) (.char '>')) := rfl
  rw [parts, matchAt?, run_seq]
  by_cases opened : ahead.head? = some '<'
  · obtain ⟨rest, rfl⟩ := List.head?_eq_some_iff.1 opened
    rw [run_char, run_letters _ _ _ (Nat.le_of_succ_le long), slot?]
    have whole := List.takeWhile_append_dropWhile (p := Char.isAlpha) (l := rest)
    dsimp only
    generalize rest.takeWhile Char.isAlpha = name at *
    generalize rest.dropWhile Char.isAlpha = later at *
    subst whole
    by_cases closed : later.head? = some '>'
    · obtain ⟨later, rfl⟩ := List.head?_eq_some_iff.1 closed
      rw [run_char]
      split
      · rfl
      · simp [slotFound, Span.covering]
    · rw [run_char_of_head_ne closed, ite_self]
      split
      · exact absurd rfl closed
      · rfl
  · rw [run_char_of_head_ne opened]
    unfold slot?
    split
    · exact absurd rfl opened
    · rfl

/-- Where the pattern is not found there is nothing to fill in; where it is, that is the first
slot. -/
theorem fill_of_find {limit : Nat} (target : Occurrence) (behind ahead : List Char)
    (long : ahead.length ≤ limit) :
    match pattern.findFrom? limit (.between behind ahead) ahead with
    | none => fill target ahead = ahead
    | some found => ∃ skipped name rest,
      ahead = skipped ++ '<' :: (name ++ '>' :: rest) ∧
      found = slotFound (skipped.reverse ++ behind) name rest ∧
      fill target ahead = skipped ++ (valueOf target name ++ fill target rest) := by
  induction ahead generalizing behind with
  | nil =>
    rw [findFrom?, matchAt?_pattern behind [] long]
    exact fill_nil target
  | cons c ahead ih =>
    rw [findFrom?, matchAt?_pattern behind _ long]
    cases slot : slot? (c :: ahead) with
    | some parts =>
      obtain ⟨name, rest⟩ := parts
      exact ⟨[], name, rest, (slot?_eq_some_iff.1 slot).2.2, rfl, fill_of_slot? slot⟩
    | none =>
      have later := ih (c :: behind) (Nat.le_of_succ_le long)
      rw [Option.map_none, orElse_none, Cursor.step_between, fill_cons slot]
      generalize pattern.findFrom? limit (.between (c :: behind) ahead) ahead = search at later ⊢
      cases search with
      | none => exact congrArg (c :: ·) later
      | some found =>
        obtain ⟨skipped, name, rest, split, found_eq, filled⟩ := later
        refine ⟨c :: skipped, name, rest, congrArg (c :: ·) split, ?_, congrArg (c :: ·) filled⟩
        rw [found_eq, List.reverse_cons, List.append_assoc, List.singleton_append]

theorem replacement_slotFound (target : Occurrence) (behind name rest : List Char) :
    replacement target (slotFound behind name rest) = valueOf target name := by
  have group : (slotFound behind name rest).group? nameGroup =
      some (.covering ('<' :: behind) name ('>' :: rest)) := by
    rw [Found.group?, slotFound, List.lookup_cons_self]
  rw [replacement, group, Option.bind_some, Span.text_covering, slotFound, Span.chars_covering]
  rfl

theorem renderFrom_eq_fill (target : Occurrence) (behind ahead : List Char) :
    renderFrom target (.between behind ahead) = fill target ahead := by
  have search := fill_of_find target behind ahead (Nat.le_succ ahead.length)
  rw [renderFrom, find?]
  rw [Cursor.ahead_between] at *
  generalize pattern.findFrom? _ (.between behind ahead) ahead = found at search ⊢
  cases found with
  | none => exact search.symm
  | some found =>
    obtain ⟨skipped, name, rest, split, rfl, filled⟩ := search
    have shorter : rest.length < ahead.length := by
      rw [split, List.length_append, List.length_cons, List.length_append, List.length_cons]
      omega
    have start : (slotFound (skipped.reverse ++ behind) name rest).whole.start =
        .between (skipped.reverse ++ behind) ('<' :: (name ++ '>' :: rest)) := by
      simp [slotFound, Span.covering]
    have stop : (slotFound (skipped.reverse ++ behind) name rest).whole.stop =
        .between (('<' :: (name ++ ['>'])).reverse ++ (skipped.reverse ++ behind)) rest := rfl
    have skip : (Cursor.between behind ahead).textTo
        (.between (skipped.reverse ++ behind) ('<' :: (name ++ '>' :: rest))) = skipped := by
      rw [split, Cursor.textTo_between]
    dsimp only
    rw [replacement_slotFound, start, stop, skip, Cursor.ahead_between, if_pos shorter,
      renderFrom_eq_fill target _ rest, filled, List.append_assoc]
termination_by ahead.length
decreasing_by exact shorter

theorem render_eq_fill (template : String) (target : Occurrence) :
    render template target = String.ofList (fill target template.toList) :=
  congrArg String.ofList (renderFrom_eq_fill target [] template.toList)

/-! ## Templates in parts -/

/-- A text ends in a bracket and letters: what follows it may make a slot of them. -/
def EndsOpen (text : List Char) : Prop :=
  (text.reverse.dropWhile Char.isAlpha).head? = some '<'

instance : DecidablePred EndsOpen := fun _ => inferInstanceAs (Decidable (_ = _))

theorem endsOpen_iff {text : List Char} :
    EndsOpen text ↔ ∃ before name, text = before ++ '<' :: name ∧ ∀ c ∈ name, c.isAlpha = true := by
  constructor
  · intro h
    obtain ⟨before, opened⟩ := List.head?_eq_some_iff.1 h
    refine ⟨before.reverse, (text.reverse.takeWhile Char.isAlpha).reverse, ?_, fun c mem => ?_⟩
    · have parts : text = (text.reverse.takeWhile Char.isAlpha ++ '<' :: before).reverse := by
        rw [← opened, List.takeWhile_append_dropWhile, List.reverse_reverse]
      rwa [List.reverse_append, List.reverse_cons, List.append_assoc] at parts
    · exact List.all_eq_true.1 List.all_takeWhile c (List.mem_reverse.1 mem)
  · rintro ⟨before, name, rfl, letters⟩
    rw [EndsOpen, List.reverse_append, List.reverse_cons, List.append_assoc,
      List.dropWhile_append_of_pos fun c mem => letters c (List.mem_reverse.1 mem)]
    rfl

theorem EndsOpen.append_left {text : List Char} (h : EndsOpen text) (before : List Char) :
    EndsOpen (before ++ text) := by
  obtain ⟨start, name, rfl, letters⟩ := endsOpen_iff.1 h
  exact endsOpen_iff.2 ⟨before ++ start, name, (List.append_assoc ..).symm, letters⟩

/-- A slot that a text begins with is there whatever follows the text. -/
theorem slot?_append {text name behind : List Char} (h : slot? text = some (name, behind))
    (more : List Char) : slot? (text ++ more) = some (name, behind ++ more) := by
  obtain ⟨named, letters, rfl⟩ := slot?_eq_some_iff.1 h
  refine slot?_eq_some_iff.2 ⟨named, letters, ?_⟩
  simp

/-- Where a text ends and another begins no slot comes about, unless the one ends in a bracket and
letters and the other goes on with a letter or a bracket. -/
theorem slot?_append_none {text more : List Char} (h : slot? text = none) (ne : text ≠ [])
    (apart : EndsOpen text → ∀ c, more.head? = some c → c ≠ '>' ∧ c.isAlpha = false) :
    slot? (text ++ more) = none := by
  cases slot : slot? (text ++ more) with
  | none => rfl
  | some parts =>
    obtain ⟨name, behind⟩ := parts
    obtain ⟨named, letters, whole⟩ := slot?_eq_some_iff.1 slot
    rw [← List.cons_append] at whole
    rcases List.append_eq_append_iff.1 whole with ⟨w, front, back⟩ | ⟨w, front, back⟩
    · -- The text ends inside the slot.
      obtain ⟨c, start, rfl⟩ := List.exists_cons_of_ne_nil ne
      rw [List.cons_append, List.cons.injEq] at front
      obtain ⟨rfl, rfl⟩ := front
      have next := apart (endsOpen_iff.2
        ⟨[], start, rfl, fun d mem => letters d (List.mem_append_left w mem)⟩)
      cases w with
      | nil => exact absurd rfl (next '>' (by rw [back]; rfl)).1
      | cons d w =>
        have letter := letters d (List.mem_append_right start List.mem_cons_self)
        rw [(next d (by rw [back]; rfl)).2] at letter
        cases letter
    · cases w with
      | nil =>
        rw [List.append_nil] at front
        rw [List.nil_append] at back
        exact absurd rfl (apart (endsOpen_iff.2 ⟨[], name, front, letters⟩) '>'
          (by rw [← back]; rfl)).1
      | cons d w =>
        rw [List.cons_append, List.cons.injEq] at back
        obtain ⟨rfl, -⟩ := back
        rw [slot?_eq_some_iff.2 ⟨named, letters, front⟩] at h
        cases h

/-- Without a slot from one into the other, two texts can be filled in one after the other. -/
theorem fill_append {target : Occurrence} (text : List Char) {more : List Char}
    (apart : EndsOpen text → ∀ c, more.head? = some c → c ≠ '>' ∧ c.isAlpha = false) :
    fill target (text ++ more) = fill target text ++ fill target more := by
  fun_induction fill target text with
  | case1 text name behind slot ih =>
    rw [fill_of_slot? (slot?_append slot more), ih, List.append_assoc]
    obtain ⟨-, -, rfl⟩ := slot?_eq_some_iff.1 slot
    intro opened
    have whole : '<' :: (name ++ '>' :: behind) = ('<' :: (name ++ ['>'])) ++ behind := by simp
    exact apart (whole ▸ opened.append_left _)
  | case2 => rfl
  | case3 c rest none ih =>
    have later := slot?_append_none none (List.cons_ne_nil c rest) apart
    rw [List.cons_append] at later ⊢
    rw [fill_cons later, ih, List.cons_append]
    exact fun opened => apart (opened.append_left [c])

theorem fill_of_unknown {target : Occurrence} (text : List Char)
    (unknown : ∀ name, ('<' :: (name ++ ['>'])) <:+: text →
      Placeholder.ofText? (String.ofList name) = none) : fill target text = text := by
  fun_induction fill target text with
  | case1 text name behind slot ih =>
    obtain ⟨-, -, rfl⟩ := slot?_eq_some_iff.1 slot
    have whole : '<' :: (name ++ '>' :: behind) = ('<' :: (name ++ ['>'])) ++ behind := by simp
    rw [whole] at unknown ⊢
    rw [valueOf, unknown name (List.prefix_append _ _).isInfix, ih]
    exact fun name inside => unknown name (inside.trans (List.suffix_append _ _).isInfix)
  | case2 => rfl
  | case3 c rest none ih =>
    rw [ih fun name inside => unknown name (inside.trans (List.suffix_cons c rest).isInfix)]

theorem letters_of_ofText? {name : String} {placeholder : Placeholder}
    (h : Placeholder.ofText? name = some placeholder) :
    name.toList ≠ [] ∧ ∀ c ∈ name.toList, c.isAlpha = true := by
  unfold Placeholder.ofText? at h
  split at h <;> cases h <;> simp

/-- **Rendering is one substitution from left to right.** A template is gone over once: at every
slot, letters of ASCII between angle brackets, the value of the placeholder that they call is put
in, or the slot as it stands if they call none; all else stays as it is. So the value at a slot is
what it is for the target, whatever slots it holds itself, and what is around it is rendered on its
own; a template without slots that call placeholders comes out unchanged; and templates that are
put together come out put together, if the first one does not end in a bracket and letters. -/
theorem render_substitutes_once (target : Occurrence) :
    (∀ template, render template target = String.ofList (fill target template.toList)) ∧
    (∀ before name placeholder after, Placeholder.ofText? name = some placeholder →
      render (before ++ ("<" ++ name ++ ">") ++ after) target =
        render before target ++ placeholder.value target ++ render after target) ∧
    (∀ template, (∀ name placeholder, Placeholder.ofText? name = some placeholder →
      ¬ ("<" ++ name ++ ">").toList <:+: template.toList) → render template target = template) ∧
    ∀ a b, ¬ EndsOpen a.toList → render (a ++ b) target = render a target ++ render b target := by
  refine ⟨fun template => render_eq_fill template target,
    fun before name placeholder after call => ?_, fun template unknown => ?_, fun a b closed => ?_⟩
  · obtain ⟨named, letters⟩ := letters_of_ofText? call
    have whole : (before ++ ("<" ++ name ++ ">") ++ after).toList =
        before.toList ++ '<' :: (name.toList ++ '>' :: after.toList) := by simp
    have slot : slot? ('<' :: (name.toList ++ '>' :: after.toList)) =
        some (name.toList, after.toList) := slot?_eq_some_iff.2 ⟨named, letters, rfl⟩
    have value : valueOf target name.toList = (placeholder.value target).toList := by
      rw [valueOf, String.ofList_toList, call]
    have apart : EndsOpen before.toList → ∀ c,
        ('<' :: (name.toList ++ '>' :: after.toList)).head? = some c →
          c ≠ '>' ∧ c.isAlpha = false := by
      rintro - c ⟨⟩
      decide
    rw [render_eq_fill, whole, fill_append _ apart, fill_of_slot? slot, value, render_eq_fill,
      render_eq_fill]
    simp [String.append_assoc]
  · rw [render_eq_fill, fill_of_unknown, String.ofList_toList]
    intro name inside
    cases call : Placeholder.ofText? (String.ofList name) with
    | none => rfl
    | some placeholder => exact absurd (by simpa using inside) (unknown _ placeholder call)
  · rw [render_eq_fill, String.toList_append, fill_append _ fun opened => absurd opened closed,
      String.ofList_append, render_eq_fill, render_eq_fill]

/-- The target of a makefile whose comment has the form of a placeholder. -/
def bracketComment : Occurrence :=
  .direct ⟨⟨⟨"Makefile"⟩, "# <name>\nall:\n"⟩, .make, ⟨"all", "<name>", 0, 9⟩⟩

/-- The comment is put in inside brackets, with an unknown slot and one that is not closed behind
it. -/
theorem bracket_comment_stays :
    Placeholder.ofText? "comment" = some .comment ∧ ¬ EndsOpen ">é <jobs>".toList ∧
      render ("<" ++ ("<" ++ "comment" ++ ">") ++ (">é <jobs>" ++ "<name")) bracketComment =
        "<<name>>é <jobs><name" := by
  obtain ⟨-, placed, unknown, parts⟩ := render_substitutes_once bracketComment
  have closed : ¬ EndsOpen ">é <jobs>".toList := by decide
  have plain : ∀ template ∈ ["<", ">é <jobs>", "<name"],
      render template bracketComment = template := by
    intro template listed
    refine unknown template fun name placeholder call => ?_
    revert template
    unfold Placeholder.ofText? at call
    split at call <;> cases call <;> decide +kernel
  refine ⟨rfl, closed, ?_⟩
  rw [placed "<" "comment" .comment _ rfl, parts _ _ closed, plain "<" (by simp),
    plain ">é <jobs>" (by simp), plain "<name" (by simp), ← String.toList_inj]
  simp only [String.toList_append]
  decide

end BuildTargets.Template
