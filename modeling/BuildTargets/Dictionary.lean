/-!
# Dictionaries

Values under texts, in the order of the texts. The order is part of the type, so two
dictionaries are equal when they hold the same values under the same keys.
-/

namespace BuildTargets

/-- Keys with values, in ascending order of the keys. -/
structure Dictionary (α : Type) where
  entries : List (String × α)
  ascending : entries.Pairwise fun a b => a.1 < b.1
deriving DecidableEq, Repr

namespace Dictionary

variable {α : Type}

def empty : Dictionary α := ⟨[], .nil⟩

instance : Inhabited (Dictionary α) := ⟨empty⟩

/-- Puts a value in its place among ascending entries; it replaces one under the same key. -/
def insertEntry (key : String) (value : α) : List (String × α) → List (String × α)
  | [] => [(key, value)]
  | (other, old) :: rest =>
    if key < other then (key, value) :: (other, old) :: rest
    else if key = other then (key, value) :: rest
    else (other, old) :: insertEntry key value rest

theorem key_of_mem_insertEntry {key : String} {value : α} {entries : List (String × α)}
    {entry : String × α} (h : entry ∈ insertEntry key value entries) :
    entry.1 = key ∨ entry ∈ entries := by
  induction entries with
  | nil => simp [insertEntry] at h; simp [h]
  | cons first rest ih =>
    obtain ⟨other, old⟩ := first
    rw [insertEntry] at h
    split at h
    · rcases List.mem_cons.1 h with rfl | h
      · exact .inl rfl
      · exact .inr h
    · split at h
      · rcases List.mem_cons.1 h with rfl | h
        · exact .inl rfl
        · exact .inr (List.mem_cons_of_mem _ h)
      · rcases List.mem_cons.1 h with rfl | h
        · exact .inr (List.mem_cons_self ..)
        · exact (ih h).imp id (List.mem_cons_of_mem _)

theorem ascending_insertEntry (key : String) (value : α) {entries : List (String × α)}
    (h : entries.Pairwise fun a b => a.1 < b.1) :
    (insertEntry key value entries).Pairwise fun a b => a.1 < b.1 := by
  induction entries with
  | nil => simp [insertEntry]
  | cons first rest ih =>
    obtain ⟨other, old⟩ := first
    obtain ⟨h1, h2⟩ := List.pairwise_cons.1 h
    rw [insertEntry]
    split
    · rename_i hlt
      refine List.pairwise_cons.2 ⟨fun entry he => ?_, h⟩
      rcases List.mem_cons.1 he with rfl | he
      · exact hlt
      · exact String.lt_trans hlt (h1 entry he)
    · split
      · rename_i heq
        subst heq
        exact List.pairwise_cons.2 ⟨h1, h2⟩
      · rename_i hlt hne
        refine List.pairwise_cons.2 ⟨fun entry he => ?_, ih h2⟩
        rcases key_of_mem_insertEntry he with he | he
        · rw [he]
          rcases Decidable.em (other < key) with h | h
          · exact h
          · exact absurd (String.le_antisymm (String.not_lt.1 h) (String.not_lt.1 hlt)) hne
        · exact h1 entry he

/-- Puts a value under a key, in place of the one that is there. -/
def insert (dictionary : Dictionary α) (key : String) (value : α) : Dictionary α :=
  ⟨insertEntry key value dictionary.entries, ascending_insertEntry key value dictionary.ascending⟩

/-- The dictionary of some entries, of which a later one replaces an earlier one. -/
def ofList (entries : List (String × α)) : Dictionary α :=
  entries.foldl (fun dictionary entry => dictionary.insert entry.1 entry.2) empty

def get? (dictionary : Dictionary α) (key : String) : Option α := dictionary.entries.lookup key

def keys (dictionary : Dictionary α) : List String := dictionary.entries.map Prod.fst

def values (dictionary : Dictionary α) : List α := dictionary.entries.map Prod.snd

/-- A key behind all others is put at the end. -/
theorem insertEntry_last {key : String} {value : α} {entries : List (String × α)}
    (behind : ∀ entry ∈ entries, entry.1 < key) :
    insertEntry key value entries = entries ++ [(key, value)] := by
  induction entries with
  | nil => rfl
  | cons first rest ih =>
    obtain ⟨other, old⟩ := first
    have before : other < key := behind _ List.mem_cons_self
    rw [insertEntry, if_neg fun behind => String.lt_irrefl _ (String.lt_trans behind before),
      if_neg fun same => String.lt_irrefl _ (same ▸ before),
      ih fun entry mem => behind entry (List.mem_cons_of_mem _ mem), List.cons_append]

/-- A dictionary is that of its entries. -/
theorem ofList_entries (dictionary : Dictionary α) :
    ofList dictionary.entries = dictionary := by
  have grown : ∀ (later : List (String × α)) (done : Dictionary α),
      (done.entries ++ later).Pairwise (fun a b => a.1 < b.1) →
        (later.foldl (fun done entry => done.insert entry.1 entry.2) done).entries =
          done.entries ++ later := by
    intro later
    induction later with
    | nil => exact fun done _ => (List.append_nil _).symm
    | cons entry later ih =>
      intro done ascending
      have behind : ∀ other ∈ done.entries, other.1 < entry.1 := fun other mem =>
        (List.pairwise_append.1 ascending).2.2 other mem entry List.mem_cons_self
      have put : (done.insert entry.1 entry.2).entries = done.entries ++ [entry] :=
        insertEntry_last behind
      rw [List.foldl_cons, ih, put, List.append_assoc, List.singleton_append]
      rwa [put, List.append_assoc]
  have entries := grown dictionary.entries empty dictionary.ascending
  obtain ⟨entries', _⟩ := dictionary
  rw [ofList, mk.injEq]
  exact entries

end Dictionary

end BuildTargets
