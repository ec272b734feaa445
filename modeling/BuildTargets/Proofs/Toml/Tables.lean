import BuildTargets.Proofs.Toml.Document

/-!
# Tables are put together again

What the sections of a document come to as one table: members with different names are kept in
order, a table under a header of its own is put at the end, and so are tables inside a table that
has no header.
-/

namespace BuildTargets.Toml

/-! ## Members -/

/-- Members as parts of a document that are complete. -/
def complete (members : List (String × Value)) : Members :=
  members.map fun member => (member.1, .complete member.2)

theorem valuesOf_append (first second : Members) :
    valuesOf (first ++ second) = valuesOf first ++ valuesOf second := by
  induction first with
  | nil => rfl
  | cons member first ih => simp [valuesOf, ih]

@[simp] theorem valuesOf_complete (members : List (String × Value)) :
    valuesOf (complete members) = members := by
  induction members with
  | nil => rfl
  | cons member members ih =>
    rw [complete] at ih
    simp [complete, valuesOf, Node.value, ih]

theorem lookup_eq_none {α : Type} {key : String} {members : List (String × α)} :
    members.lookup key = none ↔ key ∉ members.map Prod.fst := by
  rw [List.lookup_eq_none_iff]
  simp only [List.mem_map, not_exists, not_and, bne_iff_ne]
  exact forall₂_congr fun member _ => ne_comm

theorem assignAll_assignmentsOf (known : Members) {members : List (String × Value)}
    (distinct : (known.map Prod.fst ++ members.map Prod.fst).Nodup) :
    assignAll known (assignmentsOf members) = some (known ++ complete members) := by
  induction members generalizing known with
  | nil => simp [assignAll, assignmentsOf, complete]
  | cons member members ih =>
    have fresh : known.lookup member.1 = none := by
      rw [lookup_eq_none]
      intro mem
      exact (List.nodup_append.1 distinct).2.2 _ mem _ (by simp) rfl
    have put : assign member.2 true [member.1] known =
        some (known ++ [(member.1, .complete member.2)]) := by
      simp [assign, fresh]
    have later := ih (known ++ [(member.1, .complete member.2)]) (by simpa using distinct)
    rw [assignAll] at later ⊢
    rw [assignmentsOf, List.map_cons, List.foldlM_cons]
    dsimp only
    rw [put, Option.bind_eq_bind, Option.bind_some, ← assignmentsOf, later]
    simp [complete]

/-! ## Tables -/

/-- A table with a header as a part of a document. -/
def headed (members : List (String × Value)) : Node := .table .header (complete members)

theorem openTable_new {known : Members} (key : String) {members : List (String × Value)}
    (fresh : known.lookup key = none) (distinct : (members.map Prod.fst).Nodup) :
    openTable false (assignmentsOf members) [key] known =
      some (known ++ [(key, headed members)]) := by
  have filled := assignAll_assignmentsOf [] (List.nodup_append.2 ⟨.nil, distinct, nofun⟩)
  simp [openTable, fresh, filled, headed]

theorem openTable_first {known : Members} {outer key : String} {members : List (String × Value)}
    (fresh : known.lookup outer = none) (distinct : (members.map Prod.fst).Nodup) :
    openTable false (assignmentsOf members) [outer, key] known =
      some (known ++ [(outer, .table .aboveHeader [(key, headed members)])]) := by
  have inner := openTable_new key (show ([] : Members).lookup key = none from rfl) distinct
  rw [openTable, fresh]
  · dsimp only
    rw [inner]
    rfl
  · nofun

theorem put_last {known : Members} {key : String} (fresh : known.lookup key = none)
    (old new : Node) : Members.put key new (known ++ [(key, old)]) = known ++ [(key, new)] := by
  induction known with
  | nil => simp [Members.put]
  | cons member known ih =>
    rw [lookup_eq_none, List.map_cons, List.mem_cons, not_or, ← lookup_eq_none] at fresh
    rw [List.cons_append, Members.put, if_neg (Ne.symm fresh.1), ih fresh.2, List.cons_append]

theorem lookup_last {known : Members} {key : String} (fresh : known.lookup key = none)
    (node : Node) : (known ++ [(key, node)]).lookup key = some node := by
  simp [List.lookup_append, fresh]

theorem openTable_further {known inner : Members} {outer key : String}
    {members : List (String × Value)} (fresh : known.lookup outer = none)
    (new : inner.lookup key = none) (distinct : (members.map Prod.fst).Nodup) :
    openTable false (assignmentsOf members) [outer, key]
      (known ++ [(outer, .table .aboveHeader inner)]) =
      some (known ++ [(outer, .table .aboveHeader (inner ++ [(key, headed members)]))]) := by
  have opened := openTable_new key new distinct
  rw [openTable, lookup_last fresh]
  · dsimp only
    rw [opened, Option.map_some, put_last fresh]
  · nofun

/-! ## Tables inside one table -/

def Section.openIn (members : Members) (part : Section) : Option Members :=
  openTable part.isArray part.assignments part.keys members

/-- Tables with headers inside one table without a header. -/
def groupParts (outer : String) (tables : List (String × List (String × Value))) : List Part :=
  tables.map fun table => ⟨[outer, table.1], table.2⟩

def grouped (tables : List (String × List (String × Value))) : Members :=
  tables.map fun table => (table.1, headed table.2)

theorem openIn_groupParts_further {known : Members} {outer : String}
    (done : List (String × List (String × Value))) {tables : List (String × List (String × Value))}
    (fresh : known.lookup outer = none)
    (names : (done.map Prod.fst ++ tables.map Prod.fst).Nodup)
    (distinct : ∀ table ∈ tables, (table.2.map Prod.fst).Nodup) :
    ((groupParts outer tables).map Part.read).foldlM Section.openIn
        (known ++ [(outer, .table .aboveHeader (grouped done))]) =
      some (known ++ [(outer, .table .aboveHeader (grouped (done ++ tables)))]) := by
  induction tables generalizing done with
  | nil => simp [groupParts]
  | cons table tables ih =>
    have new : (grouped done).lookup table.1 = none := by
      rw [lookup_eq_none]
      intro mem
      have mem : table.1 ∈ done.map Prod.fst := by simpa [grouped] using mem
      exact (List.nodup_append.1 names).2.2 _ mem _ (by simp) rfl
    have opened := openTable_further fresh new (distinct table List.mem_cons_self)
    have later := ih (done ++ [table]) (by simpa using names)
      fun other mem => distinct other (List.mem_cons_of_mem _ mem)
    have step : Section.openIn (known ++ [(outer, .table .aboveHeader (grouped done))])
        (Part.read ⟨[outer, table.1], table.2⟩) =
        some (known ++ [(outer, .table .aboveHeader (grouped (done ++ [table])))]) := by
      rw [show grouped (done ++ [table]) = grouped done ++ [(table.1, headed table.2)] from
        List.map_append]
      exact opened
    rw [List.append_assoc, List.singleton_append] at later
    rw [groupParts, List.map_cons, List.map_cons, List.foldlM_cons, step]
    exact later

/-- **Tables inside one table are put together**, if their names and those of their members
differ. -/
theorem openIn_groupParts {known : Members} {outer : String}
    {tables : List (String × List (String × Value))} (some_table : tables ≠ [])
    (fresh : known.lookup outer = none) (names : (tables.map Prod.fst).Nodup)
    (distinct : ∀ table ∈ tables, (table.2.map Prod.fst).Nodup) :
    ((groupParts outer tables).map Part.read).foldlM Section.openIn known =
      some (known ++ [(outer, .table .aboveHeader (grouped tables))]) := by
  cases tables with
  | nil => exact absurd rfl some_table
  | cons table tables =>
    have step : Section.openIn known (Part.read ⟨[outer, table.1], table.2⟩) =
        some (known ++ [(outer, .table .aboveHeader (grouped [table]))]) :=
      openTable_first fresh (distinct table List.mem_cons_self)
    have later := openIn_groupParts_further [table] fresh names
      fun other mem => distinct other (List.mem_cons_of_mem _ mem)
    rw [groupParts, List.map_cons, List.map_cons, List.foldlM_cons, step]
    exact later

theorem valuesOf_grouped (tables : List (String × List (String × Value))) :
    valuesOf (grouped tables) = tables.map fun table => (table.1, .table table.2) := by
  induction tables with
  | nil => rfl
  | cons table tables ih =>
    have inner : (headed table.2).value = .table table.2 := by simp [headed, Node.value]
    rw [grouped, List.map_cons, valuesOf, inner, ← grouped, ih, List.map_cons]

end BuildTargets.Toml
