import BuildTargets.Pattern
import BuildTargets.Proofs.Text.Place

/-!
# Matching single pieces

What `Pattern.run` does with one piece of a pattern, for any continuation. A piece that can match
in one way only hands that way on. A repetition of a set of characters tries many ways: where the
continuation that fails behind the whole run of the set fails inside the run too, the greedy
repetition takes the run; the lazy one takes the shortest stretch behind which the continuation
does not fail.
-/

namespace BuildTargets

open Text

theorem CharSet.contains_one (c d : Char) : (CharSet.one c).contains d = (d == c) := by
  rw [Bool.eq_iff_iff]
  simp only [one, contains, Bool.and_eq_true, decide_eq_true_eq, beq_iff_eq]
  constructor
  · rintro ⟨low, high⟩
    exact Char.le_antisymm high low
  · rintro rfl
    exact ⟨Char.le_refl _, Char.le_refl _⟩

theorem CharSet.contains_ofList (cs : List Char) (d : Char) :
    (CharSet.ofList cs).contains d = cs.contains d := by
  induction cs with
  | nil => rfl
  | cons c cs ih =>
    have : (CharSet.ofList (c :: cs)) = (one c).union (ofList cs) := rfl
    rw [this, contains, contains_one, ih, List.contains_cons]

/-- The stretch of some characters, between those behind them and those that follow. -/
def Span.covering (behind w rest : List Char) : Span :=
  ⟨.between behind (w ++ rest), .between (w.reverse ++ behind) rest⟩

@[simp] theorem Span.chars_covering (behind w rest : List Char) :
    (covering behind w rest).chars = w :=
  Cursor.textTo_between behind w rest

theorem Span.text_covering (behind w rest : List Char) :
    (covering behind w rest).text = String.ofList w := by
  rw [text, chars_covering]

namespace Pattern

variable {α : Type} {limit : Nat} {set : CharSet} {behind ahead w rest : List Char}
  {groups : List (String × Span)} {k : Progress → Option α} {c : Char}

@[simp] theorem orElse_some (result : α) (second : Unit → Option α) :
    orElse (some result) second = some result := rfl

@[simp] theorem orElse_none (second : Unit → Option α) : orElse none second = second () := rfl

theorem orElse_left {first : Option α} {second : Unit → Option α} (h : second () = none) :
    orElse first second = first := by
  cases first with
  | none => exact h
  | some result => rfl

/-! ## One way at most -/

@[simp] theorem run_seq (first second : Pattern) (now : Progress) :
    run limit (seq first second) now k =
      run limit first now fun next => run limit second next k := rfl

@[simp] theorem run_group (name : String) (body : Pattern) (now : Progress) :
    run limit (group name body) now k = run limit body now fun next =>
      k { next with groups := (name, ⟨now.here, next.here⟩) :: next.groups } := rfl

@[simp] theorem run_optional (pattern : Pattern) (now : Progress) :
    run limit (optional pattern) now k = orElse (run limit pattern now k) fun _ => k now := rfl

theorem run_assert (boundary : Boundary) (now : Progress) :
    run limit (assert boundary) now k = if boundary.holds now.here then k now else none := rfl

theorem run_one_of_contains (h : set.contains c = true) :
    run limit (one set) ⟨.between behind (c :: ahead), groups⟩ k =
      k ⟨.between (c :: behind) ahead, groups⟩ := by
  simp [run, h]

theorem run_one_of_not_holds (h : set.holds ahead.head? = false) :
    run limit (one set) ⟨.between behind ahead, groups⟩ k = none := by
  cases ahead with
  | nil => rfl
  | cons c ahead => simp_all [run, CharSet.holds]

@[simp] theorem run_char (c : Char) :
    run limit (char c) ⟨.between behind (c :: ahead), groups⟩ k =
      k ⟨.between (c :: behind) ahead, groups⟩ :=
  run_one_of_contains (by simp [CharSet.contains_one])

theorem run_char_of_head_ne (h : ahead.head? ≠ some c) :
    run limit (char c) ⟨.between behind ahead, groups⟩ k = none := by
  apply run_one_of_not_holds
  cases ahead with
  | nil => rfl
  | cons d ahead => simpa [CharSet.holds, CharSet.contains_one] using h

theorem run_char_of_ne {d : Char} (h : d ≠ c) :
    run limit (char c) ⟨.between behind (d :: ahead), groups⟩ k = none :=
  run_char_of_head_ne (by simpa using h)

theorem run_seqs_cons (pattern : Pattern) (rest : List Pattern) (now : Progress) :
    run limit (seqs (pattern :: rest)) now k =
      run limit pattern now fun next => run limit (seqs rest) next k := by
  cases rest <;> rfl

theorem run_literal_append (w ahead : List Char) :
    run limit (literal w) ⟨.between behind (w ++ ahead), groups⟩ k =
      k ⟨.between (w.reverse ++ behind) ahead, groups⟩ := by
  induction w generalizing behind with
  | nil => rfl
  | cons c w ih =>
    rw [literal, List.map_cons, run_seqs_cons, List.cons_append, run_char]
    rw [literal] at ih
    rw [ih, List.reverse_cons, List.append_assoc, List.singleton_append]

theorem run_literal_of_not_prefix {w ahead : List Char} (h : ¬ w <+: ahead) :
    run limit (literal w) ⟨.between behind ahead, groups⟩ k = none := by
  induction w generalizing behind ahead with
  | nil => exact absurd (List.nil_prefix) h
  | cons c w ih =>
    rw [literal, List.map_cons, run_seqs_cons]
    rw [literal] at ih
    cases ahead with
    | nil => exact run_char_of_head_ne (by simp)
    | cons d ahead =>
      by_cases same : d = c
      · subst same
        rw [run_char]
        exact ih fun later => h (List.cons_prefix_cons.2 ⟨rfl, later⟩)
      · exact run_char_of_ne same

/-! ## Repetitions of a set -/

theorem further_one_of_not_holds (greedy : Bool) (h : set.holds ahead.head? = false) (count : Nat) :
    further (run limit (one set)) greedy count ⟨.between behind ahead, groups⟩ k =
      k ⟨.between behind ahead, groups⟩ := by
  cases count with
  | zero => rfl
  | succ count =>
    simp only [further, run_one_of_not_holds h]
    cases greedy
    · cases k ⟨.between behind ahead, groups⟩ <;> rfl
    · rfl

theorem further_one_of_contains (greedy : Bool) (h : set.contains c = true) (count : Nat) :
    further (run limit (one set)) greedy (count + 1) ⟨.between behind (c :: ahead), groups⟩ k =
      let again := fun () =>
        further (run limit (one set)) greedy count ⟨.between (c :: behind) ahead, groups⟩ k
      if greedy then orElse (again ()) fun _ => k ⟨.between behind (c :: ahead), groups⟩
      else orElse (k ⟨.between behind (c :: ahead), groups⟩) again := by
  simp only [further, run_one_of_contains h, Cursor.offset_between, width_cons_ne, if_false]

/-- A continuation that cannot begin with a character of the set fails inside a run of it. -/
theorem longest_of_stuck (hw : ∀ c ∈ w, set.contains c = true)
    (stuck : ∀ {behind ahead : List Char} {c : Char}, set.contains c = true →
      k ⟨.between behind (c :: ahead), groups⟩ = none) (u x : List Char) (split : w = u ++ x)
    (fails : k ⟨.between (w.reverse ++ behind) rest, groups⟩ = none) :
    k ⟨.between (u.reverse ++ behind) (x ++ rest), groups⟩ = none := by
  subst split
  cases x with
  | nil => rwa [List.append_nil] at fails
  | cons c x => exact stuck (hw c (by simp))

/-- Behind its whole run the greedy repetition goes on, if what fails there fails before. -/
theorem further_greedy (hw : ∀ c ∈ w, set.contains c = true) (stop : set.holds rest.head? = false)
    (longest : ∀ u x, w = u ++ x → k ⟨.between (w.reverse ++ behind) rest, groups⟩ = none →
      k ⟨.between (u.reverse ++ behind) (x ++ rest), groups⟩ = none)
    {count : Nat} (long : w.length ≤ count) :
    further (run limit (one set)) true count ⟨.between behind (w ++ rest), groups⟩ k =
      k ⟨.between (w.reverse ++ behind) rest, groups⟩ := by
  induction w generalizing behind count with
  | nil => exact further_one_of_not_holds true stop count
  | cons c w ih =>
    obtain ⟨count, rfl⟩ : ∃ less, count = less + 1 := ⟨count - 1, by simp at long; omega⟩
    have inner := @ih (c :: behind) (fun d hd => hw d (List.mem_cons_of_mem c hd))
      (fun u x split => by simpa using longest (c :: u) x (by rw [split]; rfl)) count
      (by simpa using long)
    rw [List.cons_append, further_one_of_contains true (hw c List.mem_cons_self)]
    simp only [if_true, inner]
    have whole := longest [] (c :: w) rfl
    simp only [List.reverse_cons, List.append_assoc, List.singleton_append, List.reverse_nil,
      List.nil_append] at whole ⊢
    cases last : k ⟨.between (w.reverse ++ c :: behind) rest, groups⟩ with
    | none => exact whole last
    | some result => rfl

/-- The lazy repetition goes on behind the first stretch where the continuation does not fail,
or behind the whole run. -/
theorem further_lazy (hw : ∀ c ∈ w, set.contains c = true)
    (fails : ∀ u c x, w = u ++ c :: x →
      k ⟨.between (u.reverse ++ behind) (c :: x ++ rest), groups⟩ = none)
    (last : set.holds rest.head? = false ∨ k ⟨.between (w.reverse ++ behind) rest, groups⟩ ≠ none)
    {count : Nat} (long : w.length ≤ count) :
    further (run limit (one set)) false count ⟨.between behind (w ++ rest), groups⟩ k =
      k ⟨.between (w.reverse ++ behind) rest, groups⟩ := by
  induction w generalizing behind count with
  | nil =>
    rcases last with stop | succeeds
    · exact further_one_of_not_holds false stop count
    · obtain ⟨result, succeeds⟩ := Option.ne_none_iff_exists'.1 succeeds
      cases count with
      | zero => rfl
      | succ count => simp_all [further]
  | cons c w ih =>
    obtain ⟨count, rfl⟩ : ∃ less, count = less + 1 := ⟨count - 1, by simp at long; omega⟩
    have inner := @ih (c :: behind) (fun d hd => hw d (List.mem_cons_of_mem c hd))
      (fun u d x split => by simpa using fails (c :: u) d x (by rw [split]; rfl))
      (by simpa using last) count (by simpa using long)
    have here := fails [] c w rfl
    rw [List.cons_append, further_one_of_contains false (hw c List.mem_cons_self)]
    simp only [List.reverse_nil, List.nil_append, List.cons_append] at here
    simp [here, inner]

/-- Rounds of one character never stand still. -/
theorem many_one (greedy : Bool) (count : Nat) (behind ahead : List Char) :
    many (run limit (one set)) greedy count ⟨.between behind ahead, groups⟩ k =
      further (run limit (one set)) greedy (count + 1) ⟨.between behind ahead, groups⟩ k := by
  by_cases h : set.holds ahead.head? = false
  · rw [further_one_of_not_holds greedy h]
    simp only [many, atLeastOne, run_one_of_not_holds h]
    cases greedy
    · cases k ⟨.between behind ahead, groups⟩ <;> rfl
    · rfl
  · cases ahead with
    | nil => exact absurd rfl h
    | cons c ahead =>
      have hc : set.contains c = true := by simpa [CharSet.holds] using h
      rw [further_one_of_contains greedy hc]
      simp only [many, atLeastOne, run_one_of_contains hc, Cursor.offset_between, width_cons_ne,
        if_false]

theorem run_manyOf (hw : ∀ c ∈ w, set.contains c = true) (stop : set.holds rest.head? = false)
    (longest : ∀ u x, w = u ++ x → k ⟨.between (w.reverse ++ behind) rest, groups⟩ = none →
      k ⟨.between (u.reverse ++ behind) (x ++ rest), groups⟩ = none) (long : w.length ≤ limit) :
    run limit (manyOf set) ⟨.between behind (w ++ rest), groups⟩ k =
      k ⟨.between (w.reverse ++ behind) rest, groups⟩ := by
  show many (run limit (one set)) true limit ⟨.between behind (w ++ rest), groups⟩ k = _
  rw [many_one]
  exact further_greedy hw stop longest (by omega)

theorem run_manyOf_of_not_holds (h : set.holds ahead.head? = false) :
    run limit (manyOf set) ⟨.between behind ahead, groups⟩ k =
      k ⟨.between behind ahead, groups⟩ := by
  show many (run limit (one set)) true limit ⟨.between behind ahead, groups⟩ k = _
  rw [many_one, further_one_of_not_holds true h]

/-- As few characters of the set as the continuation needs. -/
theorem run_fewOf (hw : ∀ c ∈ w, set.contains c = true)
    (fails : ∀ u c x, w = u ++ c :: x →
      k ⟨.between (u.reverse ++ behind) (c :: x ++ rest), groups⟩ = none)
    (last : set.holds rest.head? = false ∨ k ⟨.between (w.reverse ++ behind) rest, groups⟩ ≠ none)
    (long : w.length ≤ limit) :
    run limit (rep 0 none false (one set)) ⟨.between behind (w ++ rest), groups⟩ k =
      k ⟨.between (w.reverse ++ behind) rest, groups⟩ := by
  show many (run limit (one set)) false limit ⟨.between behind (w ++ rest), groups⟩ k = _
  rw [many_one]
  exact further_lazy hw fails last (by omega)

theorem run_someOf_of_not_holds (h : set.holds ahead.head? = false) :
    run limit (someOf set) ⟨.between behind ahead, groups⟩ k = none := by
  show atLeastOne (run limit (one set)) true limit ⟨.between behind ahead, groups⟩ k = none
  exact run_one_of_not_holds h

theorem run_someOf (hw : ∀ d ∈ c :: w, set.contains d = true)
    (stop : set.holds rest.head? = false)
    (longest : ∀ u x, w = u ++ x →
      k ⟨.between ((c :: w).reverse ++ behind) rest, groups⟩ = none →
        k ⟨.between ((c :: u).reverse ++ behind) (x ++ rest), groups⟩ = none)
    (long : w.length ≤ limit) :
    run limit (someOf set) ⟨.between behind (c :: w ++ rest), groups⟩ k =
      k ⟨.between ((c :: w).reverse ++ behind) rest, groups⟩ := by
  show atLeastOne (run limit (one set)) true limit ⟨.between behind (c :: (w ++ rest)), groups⟩ k =
    _
  rw [atLeastOne, run_one_of_contains (hw c List.mem_cons_self)]
  simp only [Cursor.offset_between, width_cons_ne, if_false, List.reverse_cons, List.append_assoc,
    List.singleton_append] at longest ⊢
  exact further_greedy (fun d hd => hw d (List.mem_cons_of_mem c hd)) stop longest long

/-! ## Searches -/

theorem findFrom?_of_some {pattern : Pattern} {here : Cursor} {found : Found}
    (h : pattern.matchAt? limit here = some found) (ahead : List Char) :
    pattern.findFrom? limit here ahead = some found := by
  cases ahead with
  | nil => exact h
  | cons c ahead => rw [findFrom?, h, orElse_some]

end Pattern

end BuildTargets
