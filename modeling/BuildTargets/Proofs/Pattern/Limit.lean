import BuildTargets.Proofs.Pattern.Advance

/-!
# The limit on rounds

A search carries a limit on the rounds of its repetitions, which is above the number of characters
ahead and so is never met: each round takes a character. Which limit it is does not matter then. So
the match of a pattern at a place is the same whether the search began there or before, and a search
that begins where an earlier one found its match finds that match again.
-/

namespace BuildTargets

open Text

namespace Pattern

variable {α : Type} {bound : Nat} {round round' : Matcher α} {now next : Progress}
  {k k' : Progress → Option α} {w : List Char}

/-! ## Searches that agree -/

/-- Two continuations go on alike from the place that has been reached, and from all later ones. -/
def Alike (now : Progress) (k k' : Progress → Option α) : Prop :=
  ∀ {w next}, now.here.Passes w next.here → k next = k' next

theorem Alike.here (h : Alike now k k') : k now = k' now := h (.refl now.here)

theorem Alike.later (h : Alike now k k') (passes : now.here.Passes w next.here) :
    Alike next k k' := fun passes' => h (passes.trans passes')

/-- Two matchers agree where fewer than `bound` characters are ahead. -/
def Agree (bound : Nat) (round round' : Matcher α) : Prop :=
  ∀ {now k k'}, now.here.ahead.length < bound → Alike now k k' → round now k = round' now k'

theorem orElse_congr {first first' : Option α} {second second' : Unit → Option α}
    (h : first = first') (h' : second () = second' ()) :
    orElse first second = orElse first' second' := by
  rw [h]
  cases first' with
  | none => exact h'
  | some _ => rfl

theorem round_or_stop_congr {greedy : Bool} {again again' : Unit → Option α}
    {stop stop' : Option α} (h : again () = again' ()) (h' : stop = stop') :
    (if greedy then orElse (again ()) fun _ => stop else orElse stop again) =
      if greedy then orElse (again' ()) fun _ => stop' else orElse stop' again' := by
  subst h'
  cases greedy
  · exact orElse_congr rfl h
  · exact @orElse_congr _ _ _ (fun _ => stop) (fun _ => stop) h rfl

theorem Agree.exactly (h : Agree bound round round') (count : Nat) :
    Agree bound (exactly round count) (exactly round' count) := by
  induction count with
  | zero => exact fun _ alike => alike.here
  | succ count ih =>
    intro now k k' few alike
    exact h few fun passes => ih (Nat.lt_of_le_of_lt passes.length_le few) (alike.later passes)

theorem Agree.atMost (h : Agree bound round round') (greedy : Bool) (count : Nat) :
    Agree bound (atMost round greedy count) (atMost round' greedy count) := by
  induction count with
  | zero => exact fun _ alike => alike.here
  | succ count ih =>
    intro now k k' few alike
    refine round_or_stop_congr ?_ alike.here
    exact h few fun passes => ih (Nat.lt_of_le_of_lt passes.length_le few) (alike.later passes)

/-- The limits of further rounds do not matter, as long as both are above the number of characters
ahead. -/
theorem Agree.further (h : Agree bound round round') (greedy : Bool) {limit limit' : Nat}
    (few : now.here.ahead.length < bound) (under : now.here.ahead.length < limit)
    (under' : now.here.ahead.length < limit') (alike : Alike now k k') :
    further round greedy limit now k = further round' greedy limit' now k' := by
  induction limit generalizing limit' now with
  | zero => exact absurd under (Nat.not_lt_zero _)
  | succ limit ih =>
    cases limit' with
    | zero => exact absurd under' (Nat.not_lt_zero _)
    | succ limit' =>
      refine round_or_stop_congr ?_ alike.here
      refine h few fun {w next} passes => ?_
      split
      · rfl
      · next moved =>
        have fewer := passes.length_lt moved
        exact ih (by omega) (by omega) (by omega) (alike.later passes)

theorem Agree.atLeastOne (h : Agree bound round round') (greedy : Bool) {limit limit' : Nat}
    (under : bound ≤ limit) (under' : bound ≤ limit') :
    Agree bound (atLeastOne round greedy limit) (atLeastOne round' greedy limit') := by
  intro now k k' few alike
  refine h few fun {w next} passes => ?_
  split
  · exact alike passes
  · have fewer := passes.length_le
    exact h.further greedy (by omega) (by omega) (by omega) (alike.later passes)

theorem Agree.many (h : Agree bound round round') (greedy : Bool) {limit limit' : Nat}
    (under : bound ≤ limit) (under' : bound ≤ limit') :
    Agree bound (many round greedy limit) (many round' greedy limit') := fun few alike =>
  round_or_stop_congr (h.atLeastOne greedy under under' few alike) alike.here

theorem Agree.rounds (h : Agree bound round round') {limit limit' : Nat} (under : bound ≤ limit)
    (under' : bound ≤ limit') (least : Nat) (most : Option Nat) (greedy : Bool) :
    Agree bound (rounds round limit least most greedy)
      (rounds round' limit' least most greedy) := by
  intro now k k' few alike
  match most, least with
  | some most, least =>
    refine h.exactly least few fun passes => ?_
    exact h.atMost greedy _ (Nat.lt_of_le_of_lt passes.length_le few) (alike.later passes)
  | none, 0 => exact h.many greedy under under' few alike
  | none, least + 1 =>
    refine h.exactly least few fun passes => ?_
    exact h.atLeastOne greedy under under' (Nat.lt_of_le_of_lt passes.length_le few)
      (alike.later passes)

/-- **Limits above the number of characters ahead do not matter**, by induction on the pattern. -/
theorem agree_run {limit limit' : Nat} (under : bound ≤ limit) (under' : bound ≤ limit')
    (pattern : Pattern) : Agree (α := α) bound (run limit pattern) (run limit' pattern) := by
  induction pattern with
  | empty => exact fun _ alike => alike.here
  | one set =>
    intro now k k' _ alike
    rw [run, run]
    split
    · rfl
    · next ahead =>
      split
      · exact alike (.step ahead)
      · rfl
  | assert boundary =>
    intro now k k' _ alike
    rw [run_assert, run_assert, alike.here]
  | group name body ih =>
    intro now k k' few alike
    exact ih few fun passes => alike passes
  | seq first second first_ih second_ih =>
    intro now k k' few alike
    refine first_ih few fun passes => ?_
    exact second_ih (Nat.lt_of_le_of_lt passes.length_le few) (alike.later passes)
  | alt first second first_ih second_ih =>
    intro now k k' few alike
    exact orElse_congr (first_ih few alike) (second_ih few alike)
  | rep least most greedy body ih =>
    intro now k k' few alike
    exact ih.rounds under under' least most greedy few alike

/-! ## Matches -/

variable {pattern : Pattern} {found : Found} {here : Cursor}

theorem matchAt?_eq {limit limit' : Nat} (under : here.ahead.length < limit)
    (under' : here.ahead.length < limit') :
    pattern.matchAt? limit here = pattern.matchAt? limit' here :=
  agree_run under under' pattern (Nat.lt_succ_self _) fun _ => rfl

/-- A search that begins where an earlier one found its match finds it there. -/
theorem find?_again (h : pattern.find? here = some found) :
    pattern.find? found.whole.start = some found := by
  obtain ⟨w, place, passes, matched⟩ := findFrom?_eq_some rfl h
  have fewer := passes.length_le
  rw [(matchAt?_from matched).start, find?]
  rw [@matchAt?_eq _ _ _ (place.ahead.length + 1) (by omega) (by omega)] at matched
  exact findFrom?_of_some matched _

end Pattern

end BuildTargets
