import BuildTargets.Proofs.Grammar.HeaderScan
import BuildTargets.TargetFile
import Mathlib.Data.List.Nodup

/-!
# Offsets of headers

A header begins at its comment, if it has one, and the headers that a line rule finds each begin
behind the header line of the one before. So the offset of a target says which of the targets of its
file it is, whatever their names are.
-/

namespace BuildTargets

open Text

namespace HeaderRule

/-- Where a header below some lines begins at the earliest: at the comment above it, if there is
one. -/
def earliest (above : List (List Char)) : Nat :=
  match commentAbove? above with
  | none => lineOffset above
  | some _ => lineOffset above.tail

theorem earliest_le (above : List (List Char)) : earliest above ≤ lineOffset above := by
  unfold earliest
  split
  · exact Nat.le_refl _
  · cases above with
    | nil => exact Nat.le_refl _
    | cons line above => exact Nat.le_add_left _ _

theorem le_earliest_cons (line : List Char) (above : List (List Char)) :
    lineOffset above ≤ earliest (line :: above) := by
  unfold earliest
  split
  · exact Nat.le_add_left _ _
  · exact Nat.le_refl _

/-- The text of the comment before a header below some lines, empty if there is none. -/
def commentOn (above : List (List Char)) : String :=
  ((commentAbove? above).map String.ofList).getD ""

theorem header?_eq_some {rule : HeaderRule} {above : List (List Char)} {line : List Char}
    {header : Header} (h : rule.header? above line = some header) :
    ∃ name body, rule.parts? line = some (name, body) ∧
      header = ⟨String.ofList name, commentOn above, earliest above, lineOffset above⟩ := by
  unfold header? at h
  split at h
  · cases h
  · next name body parts =>
    refine ⟨name, body, parts, ?_⟩
    split at h
    · cases h
    · unfold earliest commentOn
      cases comment : commentAbove? above <;>
        · rw [comment] at h
          cases h
          rfl

/-- No header goes back to a header line for its comment. -/
theorem earliest_of_parts? {rule : HeaderRule} {line : List Char} {parts : List Char × List Char}
    (found : rule.parts? line = some parts) (above : List (List Char)) :
    earliest (line :: above) = lineOffset (line :: above) := by
  unfold earliest
  rw [commentAbove?, commentText?_of_parts? found, ite_self]

/-- Line by line, each header begins behind the start of the header line before it. -/
theorem apart_headersBelow (rule : HeaderRule) (above todo : List (List Char)) :
    (∀ header ∈ rule.headersBelow above todo,
      earliest above ≤ header.offset ∧ header.offset ≤ header.headerOffset) ∧
    (rule.headersBelow above todo).Pairwise fun a b => a.headerOffset < b.offset := by
  induction todo generalizing above with
  | nil => exact ⟨List.forall_mem_nil _, .nil⟩
  | cons line below ih =>
    obtain ⟨least, ascending⟩ := ih (line :: above)
    have later := le_earliest_cons line above
    have before := earliest_le above
    rw [headersBelow]
    cases found : rule.header? above line with
    | none =>
      refine ⟨fun header mem => ?_, ascending⟩
      obtain ⟨lower, upper⟩ := least header mem
      exact ⟨by omega, upper⟩
    | some header =>
      obtain ⟨name, body, parts, rfl⟩ := header?_eq_some found
      have behind := earliest_of_parts? parts above
      rw [lineOffset_cons] at behind
      rw [Option.toList_some, List.singleton_append]
      refine ⟨List.forall_mem_cons.2 ⟨⟨Nat.le_refl _, before⟩, fun other mem => ?_⟩,
        List.pairwise_cons.2 ⟨fun other mem => ?_, ascending⟩⟩
      · obtain ⟨lower, upper⟩ := least other mem
        exact ⟨by omega, upper⟩
      · obtain ⟨lower, -⟩ := least other mem
        dsimp only
        omega

end HeaderRule

/-- The rule that a built-in grammar reads headers by; make has no mark before names. -/
theorem Grammar.exists_rule {grammar : Grammar} (builtin : grammar = .make ∨ grammar = .just) :
    ∃ rule : HeaderRule, (rule.quiet = true → grammar = .just) ∧
      ∀ text, grammar.headers text = rule.headersBelow [] (split '\n' text.toList) := by
  rcases builtin with rfl | rfl
  · refine ⟨makeRule, fun quiet => absurd quiet (by decide), fun text => ?_⟩
    rw [headers_eq make_header reads_make, HeaderRule.headers_eq_below]
  · refine ⟨justRule, fun _ => rfl, fun text => ?_⟩
    rw [headers_eq just_header reads_just, HeaderRule.headers_eq_below]

theorem Grammar.offsets_headers {grammar : Grammar} (builtin : grammar = .make ∨ grammar = .just)
    (text : String) : (grammar.headers text).Pairwise fun a b => a.offset < b.offset := by
  obtain ⟨rule, -, found⟩ := exists_rule builtin
  rw [found]
  obtain ⟨least, apart⟩ := rule.apart_headersBelow [] (split '\n' text.toList)
  refine apart.imp_of_mem fun mem _ before => ?_
  exact Nat.lt_of_le_of_lt (least _ mem).2 before

theorem eq_of_ascending {α : Type} {key : α → Nat} {xs : List α}
    (ascending : xs.Pairwise fun a b => key a < key b) {a b : α} (ha : a ∈ xs) (hb : b ∈ xs)
    (same : key a = key b) : a = b :=
  List.inj_on_of_nodup_map (List.pairwise_map.2 (ascending.imp Nat.ne_of_lt)) ha hb same

theorem find?_key_eq_some_iff {α : Type} {key : α → Nat} {xs : List α}
    (ascending : xs.Pairwise fun a b => key a < key b) {k : Nat} {x : α} :
    xs.find? (fun a => key a == k) = some x ↔ x ∈ xs ∧ key x = k := by
  constructor
  · intro found
    have holds := List.find?_some found
    exact ⟨List.mem_of_find?_eq_some found, by simpa using holds⟩
  · rintro ⟨mem, rfl⟩
    cases found : xs.find? (fun a => key a == key x) with
    | none => exact absurd (beq_self_eq_true (key x)) (List.find?_eq_none.1 found x mem)
    | some other =>
      have holds := List.find?_some found
      rw [eq_of_ascending ascending (List.mem_of_find?_eq_some found) mem (by simpa using holds)]

namespace TargetFile

theorem find?_offset {file : TargetFile} (builtin : file.grammar = .make ∨ file.grammar = .just)
    {target : Target} (mem : target ∈ file.targets) :
    file.targets.find? (fun other => other.offset == target.offset && other.name == target.name) =
      some target := by
  cases found : file.targets.find?
      (fun other => other.offset == target.offset && other.name == target.name) with
  | none =>
    have := List.find?_eq_none.1 found target mem
    simp at this
  | some other =>
    have same := List.find?_some found
    rw [Bool.and_eq_true, beq_iff_eq] at same
    have mem' := List.mem_of_find?_eq_some found
    rw [targets, List.mem_map] at mem mem'
    obtain ⟨header, held, rfl⟩ := mem
    obtain ⟨header', held', rfl⟩ := mem'
    rw [eq_of_ascending (Grammar.offsets_headers builtin _) held' held same.1]

end TargetFile

end BuildTargets
