import BuildTargets.Proofs.Pattern.Run
import BuildTargets.Proofs.Text.Reach

/-!
# Matches go forward

Whatever a pattern is, a search that succeeds has passed some characters and then asked its
continuation, and what its groups have matched lies among these characters. So a match begins where
it was looked for, ends there or later in the text, and has its groups inside.
-/

namespace BuildTargets

open Text

/-! ## Later progress -/

structure Span.Within (span : Span) (here there : Cursor) : Prop where
  start : here.Reaches span.start
  inside : span.start.Reaches span.stop
  stop : span.stop.Reaches there

/-- Later progress, some characters further on: whatever a group has matched since lies among these
characters. -/
structure Progress.Leads (now : Progress) (w : List Char) (next : Progress) : Prop where
  passes : now.here.Passes w next.here
  groups : ∀ entry ∈ next.groups, entry ∈ now.groups ∨ entry.2.Within now.here next.here

namespace Progress.Leads

variable {now mid next : Progress} {v w : List Char}

theorem refl (now : Progress) : now.Leads [] now := ⟨.refl now.here, fun _ mem => .inl mem⟩

theorem trans (first : now.Leads v mid) (second : mid.Leads w next) : now.Leads (v ++ w) next where
  passes := first.passes.trans second.passes
  groups entry mem := by
    rcases second.groups entry mem with earlier | within
    · refine (first.groups entry earlier).imp_right fun within => ?_
      exact ⟨within.start, within.inside, within.stop.trans ⟨w, second.passes⟩⟩
    · exact .inr ⟨.trans ⟨v, first.passes⟩ within.start, within.inside, within.stop⟩

theorem step {c : Char} {rest : List Char} (h : now.here.ahead = c :: rest) :
    now.Leads [c] { now with here := now.here.step c rest } :=
  ⟨.step h, fun _ mem => .inl mem⟩

theorem group (h : now.Leads w next) (name : String) :
    now.Leads w { next with groups := (name, ⟨now.here, next.here⟩) :: next.groups } where
  passes := h.passes
  groups entry mem := by
    rcases List.mem_cons.1 mem with rfl | earlier
    · exact .inr ⟨.refl now.here, ⟨w, h.passes⟩, .refl next.here⟩
    · exact h.groups entry earlier

end Progress.Leads

namespace Pattern

variable {α : Type} {limit : Nat} {round : Matcher α}

theorem orElse_eq_some {first : Option α} {second : Unit → Option α} {result : α}
    (h : orElse first second = some result) : first = some result ∨ second () = some result := by
  cases first with
  | none => exact .inr h
  | some _ => exact .inl h

/-- A repetition that succeeds has gone one more round or stopped. -/
theorem round_or_stop {greedy : Bool} {again : Unit → Option α} {stop : Option α} {result : α}
    (h : (if greedy then orElse (again ()) fun _ => stop else orElse stop again) = some result) :
    again () = some result ∨ stop = some result := by
  cases greedy
  · rw [if_neg Bool.false_ne_true] at h
    exact (orElse_eq_some h).symm
  · rw [if_pos rfl] at h
    exact orElse_eq_some h

/-! ## Matchers -/

/-- The continuation succeeds at some later progress. -/
def Hands (now : Progress) (k : Progress → Option α) (result : α) : Prop :=
  ∃ w next, now.Leads w next ∧ k next = some result

/-- A matcher that succeeds has passed some characters and then asked its continuation. -/
def Forward (round : Matcher α) : Prop :=
  ∀ {now k result}, round now k = some result → Hands now k result

theorem Hands.here {now : Progress} {k : Progress → Option α} {result : α}
    (h : k now = some result) : Hands now k result := ⟨[], now, .refl _, h⟩

theorem Hands.trans {now next : Progress} {k : Progress → Option α} {result : α} {w : List Char}
    (leads : now.Leads w next) (h : Hands next k result) : Hands now k result := by
  obtain ⟨v, last, leads', asked⟩ := h
  exact ⟨w ++ v, last, leads.trans leads', asked⟩

theorem Forward.exactly (h : Forward round) (count : Nat) : Forward (exactly round count) := by
  induction count with
  | zero => exact Hands.here
  | succ count ih =>
    intro now k result matched
    obtain ⟨w, next, leads, rest⟩ := h matched
    exact (ih rest).trans leads

theorem Forward.atMost (h : Forward round) (greedy : Bool) (count : Nat) :
    Forward (atMost round greedy count) := by
  induction count with
  | zero => exact Hands.here
  | succ count ih =>
    intro now k result matched
    rcases round_or_stop matched with again | stop
    · obtain ⟨w, next, leads, rest⟩ := h again
      exact (ih rest).trans leads
    · exact .here stop

theorem Forward.further (h : Forward round) (greedy : Bool) (count : Nat) :
    Forward (further round greedy count) := by
  induction count with
  | zero => exact Hands.here
  | succ count ih =>
    intro now k result matched
    rcases round_or_stop matched with again | stop
    · obtain ⟨w, next, leads, rest⟩ := h again
      dsimp only at rest
      split at rest
      · cases rest
      · exact (ih rest).trans leads
    · exact .here stop

theorem Forward.atLeastOne (h : Forward round) (greedy : Bool) (limit : Nat) :
    Forward (atLeastOne round greedy limit) := by
  intro now k result matched
  obtain ⟨w, next, leads, rest⟩ := h matched
  dsimp only at rest
  split at rest
  · exact (Hands.here rest).trans leads
  · exact (h.further greedy limit rest).trans leads

theorem Forward.many (h : Forward round) (greedy : Bool) (limit : Nat) :
    Forward (many round greedy limit) := by
  intro now k result matched
  rcases round_or_stop matched with again | stop
  · exact h.atLeastOne greedy limit again
  · exact .here stop

theorem Forward.rounds (h : Forward round) (limit least : Nat) (most : Option Nat) (greedy : Bool) :
    Forward (rounds round limit least most greedy) := by
  intro now k result matched
  match most, least with
  | some most, least =>
    obtain ⟨w, next, leads, rest⟩ := h.exactly least matched
    exact (h.atMost greedy (most - least) rest).trans leads
  | none, 0 => exact h.many greedy limit matched
  | none, least + 1 =>
    obtain ⟨w, next, leads, rest⟩ := h.exactly least matched
    exact (h.atLeastOne greedy limit rest).trans leads

theorem hands_one {set : CharSet} {now : Progress} {k : Progress → Option α} {result : α}
    (h : run limit (one set) now k = some result) :
    ∃ c next, now.Leads [c] next ∧ k next = some result := by
  rw [run] at h
  split at h
  · cases h
  · next c rest ahead =>
    split at h
    · exact ⟨c, _, .step ahead, h⟩
    · cases h

/-- **A pattern that matches goes forward**, by induction on the pattern. -/
theorem forward_run (pattern : Pattern) : Forward (α := α) (run limit pattern) := by
  induction pattern with
  | empty => exact Hands.here
  | one set =>
    intro now k result matched
    obtain ⟨c, next, leads, rest⟩ := hands_one matched
    exact (Hands.here rest).trans leads
  | assert boundary =>
    intro now k result matched
    rw [run_assert] at matched
    split at matched
    · exact Hands.here matched
    · cases matched
  | group name body ih =>
    intro now k result matched
    obtain ⟨w, next, leads, rest⟩ := ih matched
    exact ⟨w, _, leads.group name, rest⟩
  | seq first second first_ih second_ih =>
    intro now k result matched
    obtain ⟨w, next, leads, rest⟩ := first_ih matched
    exact (second_ih rest).trans leads
  | alt first second first_ih second_ih =>
    intro now k result matched
    exact (orElse_eq_some matched).elim first_ih second_ih
  | rep least most greedy body ih => exact ih.rounds limit least most greedy

theorem hands_someOf {set : CharSet} {now : Progress} {k : Progress → Option α} {result : α}
    (h : run limit (someOf set) now k = some result) :
    ∃ c w next, now.Leads (c :: w) next ∧ k next = some result := by
  have first : atLeastOne (run limit (one set)) true limit now k = some result := h
  obtain ⟨c, next, leads, rest⟩ := hands_one first
  have later : Hands next k result := by
    split at rest
    · exact .here rest
    · have single : Forward (run (α := α) limit (one set)) := forward_run (one set)
      exact single.further true limit rest
  obtain ⟨w, last, leads', asked⟩ := later
  exact ⟨c, w, last, leads.trans leads', asked⟩

/-! ## Matches -/

variable {pattern : Pattern} {found : Found}

theorem Found.mem_of_group? {name : String} {span : Span} (h : found.group? name = some span) :
    (name, span) ∈ found.groups := by
  obtain ⟨before, after, groups, -⟩ := List.lookup_eq_some_iff.1 h
  rw [groups]
  exact List.mem_append_right before List.mem_cons_self

/-- A match begins at its place, and its groups lie inside. -/
structure Found.From (found : Found) (here : Cursor) : Prop where
  start : found.whole.start = here
  reaches : here.Reaches found.whole.stop
  group : ∀ {name span}, found.group? name = some span → span.Within here found.whole.stop

theorem matchAt?_from {here : Cursor} (h : pattern.matchAt? limit here = some found) :
    found.From here := by
  obtain ⟨w, reached, leads, asked⟩ := forward_run pattern h
  cases asked
  refine ⟨rfl, ⟨w, leads.passes⟩, fun {name span} group => ?_⟩
  exact (leads.groups (name, span) (Found.mem_of_group? group)).resolve_left List.not_mem_nil

/-- The first match at a place or later is a match at the place behind some characters. -/
theorem findFrom?_eq_some {here : Cursor} {ahead : List Char} (rest : here.ahead = ahead)
    (h : pattern.findFrom? limit here ahead = some found) :
    ∃ w place, here.Passes w place ∧ pattern.matchAt? limit place = some found := by
  induction ahead generalizing here with
  | nil => exact ⟨[], here, .refl here, h⟩
  | cons c ahead ih =>
    rw [findFrom?] at h
    rcases orElse_eq_some h with matched | later
    · exact ⟨[], here, .refl here, matched⟩
    · obtain ⟨w, place, passes, matched⟩ := ih rfl later
      exact ⟨[c] ++ w, place, (Cursor.Passes.step rest).trans passes, matched⟩

theorem find?_eq_some {here : Cursor} (h : pattern.find? here = some found) :
    ∃ limit w place, here.Passes w place ∧ pattern.matchAt? limit place = some found :=
  ⟨_, findFrom?_eq_some rfl h⟩

end Pattern

end BuildTargets
