import BuildTargets.Proofs.Path.Components

/-!
# Parents of paths

The first components of a path are those of the written path up to the end of the last of them. So
the parent of a path has its components but for the last one.
-/

namespace BuildTargets.Path

/-! ## Pieces up to one of them -/

/-- A part between separators makes one piece, which ends where the part does, or none. -/
theorem pieceOf_cases (first : Bool) (start : Nat) (part : List Char) :
    pieceOf first start part = [] ∨
      ∃ piece, pieceOf first start part = [piece] ∧ piece.start = start ∧
        piece.stop = start + part.length := by
  unfold pieceOf
  split
  · exact .inl rfl
  · split
    · cases first
      · exact .inl rfl
      · exact .inr ⟨_, rfl, rfl, rfl⟩
    · split <;> exact .inr ⟨_, rfl, rfl, rfl⟩

/-- Where the pieces of a part and of what follows it are divided behind a piece, it is that of the
part or a later one. -/
theorem pieceOf_append_cases {first : Bool} {start : Nat} {part : List Char}
    {later before after : List Piece} {last : Piece}
    (h : pieceOf first start part ++ later = before ++ last :: after) :
    (pieceOf first start part = before ++ [last] ∧ last.stop = start + part.length) ∨
      ∃ before', before = pieceOf first start part ++ before' ∧
        later = before' ++ last :: after := by
  rcases pieceOf_cases first start part with none | ⟨piece, one, -, stop⟩
  · rw [none] at h ⊢
    exact .inr ⟨before, rfl, h⟩
  · rw [one] at h ⊢
    cases before with
    | nil =>
      obtain ⟨rfl, -⟩ := List.cons.inj h
      exact .inl ⟨rfl, stop⟩
    | cons head before =>
      obtain ⟨rfl, behind⟩ := List.cons.inj h
      exact .inr ⟨before, rfl, behind⟩

/-- Up to the end of one of its pieces, a text has the pieces up to that one. -/
theorem piecesFrom_take {first : Bool} {start : Nat} {name rest : List Char}
    {before after : List Piece} {last : Piece}
    (h : piecesFrom first start name rest = before ++ last :: after) :
    start + name.length ≤ last.stop ∧
      piecesFrom first start name (rest.take (last.stop - (start + name.length))) =
        before ++ [last] := by
  induction rest generalizing first start name before with
  | nil =>
    rw [piecesFrom, ← List.append_nil (pieceOf _ _ _)] at h
    rcases pieceOf_append_cases h with ⟨eq, stop⟩ | ⟨before', -, later⟩
    · rw [List.length_reverse] at stop
      refine ⟨Nat.le_of_eq stop.symm, ?_⟩
      rw [List.take_nil, piecesFrom, eq]
    · simp at later
  | cons c rest ih =>
    rw [piecesFrom] at h
    by_cases sep : c = '/'
    · subst sep
      rw [if_pos rfl] at h
      rcases pieceOf_append_cases h with ⟨eq, stop⟩ | ⟨before', split, later⟩
      · rw [List.length_reverse] at stop
        refine ⟨Nat.le_of_eq stop.symm, ?_⟩
        rw [stop, Nat.sub_self, List.take_zero, piecesFrom, eq]
      · obtain ⟨le, eq⟩ := ih later
        rw [List.length_nil, Nat.add_zero] at le eq
        refine ⟨by omega, ?_⟩
        rw [show last.stop - (start + name.length) =
            last.stop - (start + name.length + 1) + 1 by omega, List.take_succ_cons, piecesFrom,
          if_pos rfl, eq, split, List.append_assoc]
    · rw [if_neg sep] at h
      obtain ⟨le, eq⟩ := ih h
      rw [List.length_cons] at le eq
      refine ⟨by omega, ?_⟩
      rw [show last.stop - (start + name.length) =
          last.stop - (start + (name.length + 1)) + 1 by omega, List.take_succ_cons, piecesFrom,
        if_neg sep, eq]

theorem start_piecesFrom {start : Nat} {name rest : List Char}
    (filled : (name.reverse ++ rest).takeWhile (· != '/') ≠ []) (slash : '/' ∉ name) :
    (piecesFrom true start name rest).head?.map Piece.start = some start := by
  have begins : ∀ {part : List Char} (later : List Piece), part ≠ [] →
      (pieceOf true start part ++ later).head?.map Piece.start = some start := by
    intro part later full
    unfold pieceOf
    rw [if_neg full]
    split
    · rfl
    · split <;> rfl
  induction rest generalizing name with
  | nil =>
    rw [piecesFrom, ← List.append_nil (pieceOf _ _ _)]
    apply begins
    rintro empty
    simp [empty] at filled
  | cons c rest ih =>
    rw [piecesFrom]
    split
    · next sep =>
      apply begins
      rintro empty
      simp [empty, sep] at filled
    · next sep =>
      exact ih (by simpa using filled) (by simp [slash, Ne.symm sep])

theorem start_pieces {path : Path} {first : Piece} (h : path.pieces.head? = some first) :
    first.start = 0 := by
  unfold pieces at h
  split at h
  · cases h
    rfl
  · next text =>
    cases chars : path.text.toList with
    | nil =>
      rw [chars] at h
      cases h
    | cons c rest =>
      have sep : c ≠ '/' := by
        rintro rfl
        exact text rest chars
      have filled : (([] : List Char).reverse ++ path.text.toList).takeWhile (· != '/') ≠ [] := by
        simp [chars, sep]
      have start : (piecesFrom true 0 [] path.text.toList).head?.map Piece.start = some 0 :=
        start_piecesFrom filled List.not_mem_nil
      rw [h] at start
      exact Option.some.inj start

/-! ## Stretches from the start -/

theorem stretch_eq {path : Path} {before after : List Piece} {last : Piece}
    (h : path.pieces = before ++ last :: after) :
    path.stretch (before ++ [last]) = ⟨String.ofList (path.text.toList.take last.stop)⟩ := by
  obtain ⟨first, head⟩ : ∃ first, (before ++ [last]).head? = some first := by
    cases before <;> exact ⟨_, rfl⟩
  have begins : path.pieces.head? = some first := by
    rw [h, ← head]
    cases before <;> rfl
  rw [stretch, head, List.getLast?_concat]
  dsimp only
  rw [start_pieces begins, Nat.sub_zero, List.drop_zero]

theorem components_stretch_concat {path : Path} {before after : List Piece} {last : Piece}
    (h : path.pieces = before ++ last :: after) :
    (path.stretch (before ++ [last])).components = (before ++ [last]).map Piece.component := by
  rw [stretch_eq h, components]
  congr 1
  unfold pieces at h ⊢
  rw [String.toList_ofList]
  split at h
  · next rest text =>
    rw [text]
    cases before with
    | nil =>
      obtain ⟨rfl, -⟩ := List.cons.inj h
      rfl
    | cons root before =>
      obtain ⟨rfl, later⟩ := List.cons.inj h
      obtain ⟨le, eq⟩ := piecesFrom_take later
      rw [List.length_nil, Nat.add_zero] at le eq
      obtain ⟨stop, stop_eq⟩ : ∃ stop, last.stop = stop + 1 := ⟨last.stop - 1, by omega⟩
      rw [stop_eq, List.take_succ_cons]
      rw [stop_eq, Nat.add_sub_cancel] at eq
      show _ :: piecesFrom false 1 [] (rest.take stop) = _
      rw [eq]
      rfl
  · next text =>
    obtain ⟨-, eq⟩ := piecesFrom_take h
    split
    · next rest cut =>
      have mem : path.text.toList.head? = some '/' := by
        cases chars : path.text.toList with
        | nil => simp [chars] at cut
        | cons c chars =>
          cases stop : last.stop with
          | zero => simp [stop] at cut
          | succ stop => simp_all
      obtain ⟨rest, eq⟩ := List.head?_eq_some_iff.1 mem
      exact absurd eq (text rest)
    · exact eq

theorem components_stretch_take (path : Path) (count : Nat) :
    (path.stretch (path.pieces.take count)).components = path.components.take count := by
  show _ = (path.pieces.map Piece.component).take count
  rw [← List.map_take]
  rcases List.eq_nil_or_concat (path.pieces.take count) with none | ⟨before, last, eq⟩
  · rw [none]
    rfl
  · rw [List.concat_eq_append] at eq
    have divided : path.pieces = before ++ last :: path.pieces.drop count := by
      rw [← List.singleton_append, ← List.append_assoc, ← eq, List.take_append_drop]
    rw [eq]
    exact components_stretch_concat divided

theorem text_stretch_take (path : Path) (count : Nat) :
    ∃ stop, (path.stretch (path.pieces.take count)).text =
      String.ofList (path.text.toList.take stop) := by
  rcases List.eq_nil_or_concat (path.pieces.take count) with none | ⟨before, last, eq⟩
  · exact ⟨0, by rw [none]; rfl⟩
  · rw [List.concat_eq_append] at eq
    have divided : path.pieces = before ++ last :: path.pieces.drop count := by
      rw [← List.singleton_append, ← List.append_assoc, ← eq, List.take_append_drop]
    exact ⟨last.stop, by rw [eq, stretch_eq divided]⟩

theorem text_stretch_take_of_nil {path : Path} {count : Nat}
    (none : (path.stretch (path.pieces.take count)).components = []) :
    (path.stretch (path.pieces.take count)).text = "" := by
  rw [components_stretch_take, components, ← List.map_take, List.map_eq_nil_iff] at none
  rw [none]
  rfl

/-! ## Parents -/

theorem parent?_eq_stretch {path : Path} (filled : path.components ≠ [])
    (root : path.components.getLast? ≠ some .root) :
    path.parent? = some (path.stretch path.pieces.dropLast) := by
  have pieces : path.pieces ≠ [] := by
    intro none
    exact filled (by rw [components, none]; rfl)
  obtain ⟨before, last, eq⟩ := (List.eq_nil_or_concat path.pieces).resolve_left pieces
  rw [List.concat_eq_append] at eq
  rw [parent?, eq, List.reverse_append, List.reverse_singleton, List.singleton_append,
    List.dropLast_concat]
  dsimp only
  rw [if_neg, List.reverse_reverse]
  intro last_root
  apply root
  rw [components, eq, List.map_append, List.map_singleton, List.getLast?_concat, last_root]

/-- A path with components, the root alone apart, has a parent with all of them but the last. -/
theorem components_parent? {path : Path} (filled : path.components ≠ [])
    (root : path.components.getLast? ≠ some .root) :
    ∃ parent, path.parent? = some parent ∧ parent.components = path.components.dropLast := by
  refine ⟨_, parent?_eq_stretch filled root, ?_⟩
  rw [List.dropLast_eq_take, components_stretch_take, List.dropLast_eq_take, components,
    List.length_map]

end BuildTargets.Path
