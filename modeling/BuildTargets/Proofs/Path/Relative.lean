import BuildTargets.Proofs.Path.Components

/-!
# Paths as seen from a directory

Names that are joined by separators make one piece each. Where a path is that of a directory and
such names behind it, the path as seen from the directory is these names.
-/

namespace BuildTargets.Path

open Text

/-! ## Names joined by separators -/

theorem toList_intercalate_cons {name : String} {names : List String} (filled : names ≠ []) :
    ("/".intercalate (name :: names)).toList =
      name.toList ++ '/' :: ("/".intercalate names).toList := by
  rw [String.intercalate_cons_of_ne_nil filled, String.toList_append, String.toList_append,
    List.append_assoc]
  rfl

theorem piecesFrom_append (first : Bool) (start : Nat) (name a b : List Char) :
    piecesFrom first start name (a ++ '/' :: b) =
      piecesFrom first start name a ++
        piecesFrom false (start + name.length + a.length + 1) [] b := by
  induction a generalizing first start name with
  | nil =>
    rw [List.nil_append, piecesFrom.eq_2, if_pos rfl, piecesFrom, List.length_nil, Nat.add_zero]
  | cons c a ih =>
    rw [List.cons_append, piecesFrom, piecesFrom]
    by_cases sep : c = '/'
    · rw [if_pos sep, if_pos sep, ih, List.append_assoc, List.length_nil, List.length_cons,
        show start + name.length + 1 + 0 + a.length + 1 =
          start + name.length + (a.length + 1) + 1 by omega]
    · rw [if_neg sep, if_neg sep, ih, List.length_cons, List.length_cons,
        show start + (name.length + 1) + a.length + 1 =
          start + name.length + (a.length + 1) + 1 by omega]

theorem piecesFrom_of_not_mem (first : Bool) (start : Nat) {name rest : List Char}
    (slash : '/' ∉ rest) :
    piecesFrom first start name rest = pieceOf first start (name.reverse ++ rest) := by
  induction rest generalizing name with
  | nil => rw [piecesFrom, List.append_nil]
  | cons c rest ih =>
    rw [List.mem_cons, not_or] at slash
    rw [piecesFrom, if_neg (Ne.symm slash.1), ih slash.2, List.reverse_cons, List.append_assoc]
    rfl

theorem piecesFrom_step (first : Bool) (start : Nat) {step : Component} (isStep : step.IsStep) :
    piecesFrom first start [] step.text.toList =
      [⟨step, start, start + step.text.toList.length⟩] := by
  obtain ⟨slash, filled, dot, -⟩ := isStep.written
  rw [piecesFrom_of_not_mem first start slash, List.reverse_nil, List.nil_append, pieceOf,
    if_neg filled, if_neg dot]
  rcases isStep.cases with rfl | ⟨name, rfl, -, -, -, dots⟩
  · rfl
  · rw [Component.text, if_neg dots, String.ofList_toList]

theorem piecesFrom_name (start : Nat) {name : String} (isName : IsName name) :
    piecesFrom false start [] name.toList =
      [⟨.name name, start, start + name.toList.length⟩] :=
  piecesFrom_step false start isName.isStep

/-- Names joined by separators make one piece each, from the start of the first name to the end of
the last. -/
theorem piecesFrom_intercalate (start : Nat) {names : List String}
    (isName : ∀ name ∈ names, IsName name) (filled : names ≠ []) :
    ∃ first last, (piecesFrom false start [] ("/".intercalate names).toList).length = names.length ∧
      (piecesFrom false start [] ("/".intercalate names).toList).head? = some first ∧
      (piecesFrom false start [] ("/".intercalate names).toList).getLast? = some last ∧
      first.start = start ∧ last.stop = start + ("/".intercalate names).toList.length := by
  induction names generalizing start with
  | nil => exact absurd rfl filled
  | cons name names ih =>
    rw [List.forall_mem_cons] at isName
    by_cases last : names = []
    · rw [last, String.intercalate_singleton, piecesFrom_name start isName.1]
      exact ⟨_, _, rfl, rfl, rfl, rfl, rfl⟩
    · obtain ⟨-, final, length, -, ends, -, stop⟩ :=
        ih (start + 0 + name.toList.length + 1) isName.2 last
      rw [toList_intercalate_cons last, piecesFrom_append, List.length_nil,
        piecesFrom_name start isName.1]
      refine ⟨_, final, ?_, rfl, ?_, rfl, ?_⟩
      · rw [List.singleton_append, List.length_cons, length, List.length_cons]
      · rw [List.getLast?_append, ends]
        rfl
      · rw [stop, List.length_append, List.length_cons]
        omega

theorem pieces_append {path base : Path} {b : List Char} (filled : base.text ≠ "")
    (written : path.text.toList = base.text.toList ++ '/' :: b) :
    path.pieces = base.pieces ++ piecesFrom false (base.text.toList.length + 1) [] b := by
  obtain ⟨c, a, chars⟩ := List.exists_cons_of_ne_nil
    (show base.text.toList ≠ [] by simpa using filled)
  rw [pieces, pieces, written, chars, List.cons_append, List.length_cons]
  split
  · next rest eq =>
    obtain ⟨rfl, rfl⟩ := List.cons.inj eq
    rw [piecesFrom_append, List.length_nil, show 1 + 0 + a.length + 1 = a.length + 1 + 1 by omega]
    rfl
  · next relative =>
    split
    · next rest eq =>
      obtain ⟨rfl, -⟩ := List.cons.inj eq
      exact absurd rfl (relative _)
    · rw [← List.cons_append, piecesFrom_append, List.length_nil, List.length_cons,
        show 0 + 0 + (a.length + 1) + 1 = a.length + 1 + 1 by omega]

theorem exists_pieces_append {path : Path} {a b : List Char}
    (written : path.text.toList = a ++ '/' :: b) :
    ∃ begin, path.pieces = begin ++ piecesFrom false (a.length + 1) [] b := by
  cases a with
  | nil =>
    refine ⟨[⟨.root, 0, 1⟩], ?_⟩
    rw [pieces, written]
    rfl
  | cons c a =>
    have pieces := @pieces_append path ⟨String.ofList (c :: a)⟩ b (by simp)
      (by rw [String.toList_ofList, written])
    rw [String.toList_ofList] at pieces
    exact ⟨_, pieces⟩

/-! ## Seen from a directory -/

/-- What follows a directory in a written path is what the path is as seen from there. -/
theorem text_relativeTo {path base : Path} {begin : String} {names : List String}
    (written : path.text = begin ++ "/".intercalate names)
    (ended : begin.toList.getLast? = some '/')
    (components : path.components = base.components ++ names.map .name)
    (isName : ∀ name ∈ names, IsName name) (filled : names ≠ []) :
    (path.relativeTo base).text = "/".intercalate names := by
  obtain ⟨before, text⟩ := List.getLast?_eq_some_iff.1 ended
  have chars : path.text.toList = before ++ '/' :: ("/".intercalate names).toList := by
    rw [written, String.toList_append, text, List.append_assoc]
    rfl
  obtain ⟨pieces, all⟩ := exists_pieces_append chars
  obtain ⟨first, last, length, head, ends, start, stop⟩ :=
    piecesFrom_intercalate (before.length + 1) isName filled
  have count : pieces.length = base.components.length := by
    have lengths := congrArg List.length components
    rw [Path.components, List.length_map, all, List.length_append, length, List.length_append,
      List.length_map] at lengths
    omega
  rw [relativeTo, below?, if_pos (by rw [components, List.take_left]), Option.getD_some, ← count,
    all, List.drop_left, stretch, head, ends]
  dsimp only
  have behind : (before ++ '/' :: ("/".intercalate names).toList).drop (before.length + 1) =
      ("/".intercalate names).toList := by
    rw [List.append_cons]
    exact List.drop_left' (by rw [List.length_append, List.length_singleton])
  rw [start, stop, chars, Nat.add_sub_cancel_left, behind, List.take_length, String.ofList_toList]

end BuildTargets.Path
