import BuildTargets.FileSystem

/-!
# Places in a file system

A path that can be followed leads to the place that its components name, whatever is passed through
on the way. What is put at one place of a tree changes nothing at places that do not lie below it.
-/

namespace BuildTargets

/-! ## Entries -/

namespace Entry

@[simp] theorem at?_nil (entry : Entry) : entry.at? [] = some entry := rfl

theorem at?_cons (entry : Entry) (name : String) (rest : List String) :
    entry.at? (name :: rest) = (entry.entries.lookup name).bind fun inner => inner.at? rest := by
  rw [at?]
  cases entry.entries.lookup name <;> rfl

theorem at?_append (entry : Entry) (place rest : List String) :
    entry.at? (place ++ rest) = (entry.at? place).bind fun inner => inner.at? rest := by
  induction place generalizing entry with
  | nil => rfl
  | cons name place ih =>
    rw [List.cons_append, at?_cons, at?_cons, Option.bind_assoc]
    exact Option.bind_congr fun inner _ => ih inner

@[simp] theorem at?_file (content : ByteArray) {place : List String} (h : place ≠ []) :
    (file content).at? place = none := by
  obtain ⟨name, rest, rfl⟩ := List.exists_cons_of_ne_nil h
  rfl

theorem at?_empty {place : List String} (h : place ≠ []) : empty.at? place = none := by
  obtain ⟨name, rest, rfl⟩ := List.exists_cons_of_ne_nil h
  rfl

theorem at?_concat {entry : Entry} {place : List String} {entries : List (String × Entry)}
    (h : entry.at? place = some (directory entries)) (name : String) :
    entry.at? (place ++ [name]) = entries.lookup name := by
  rw [at?_append, h, Option.bind_some, at?_cons]
  cases held : entries.lookup name <;> simp [Entry.entries, held]

theorem lookup_cons_eq_ite (name other : String) (entry : Entry) (rest : List (String × Entry)) :
    ((name, entry) :: rest).lookup other =
      if other = name then some entry else rest.lookup other := by
  rw [List.lookup_cons]
  by_cases same : other = name
  · simp [same]
  · rw [if_neg same, beq_eq_false_iff_ne.2 same]

theorem lookup_putName (name other : String) (new : Entry) (entries : List (String × Entry)) :
    (putName name new entries).lookup other =
      if other = name then some new else entries.lookup other := by
  induction entries with
  | nil => rw [putName, lookup_cons_eq_ite]
  | cons first rest ih =>
    obtain ⟨held, entry⟩ := first
    rw [putName, lookup_cons_eq_ite]
    by_cases here : held = name
    · subst here
      rw [if_pos rfl, lookup_cons_eq_ite]
      by_cases same : other = held
      · rw [if_pos same, if_pos same]
      · rw [if_neg same, if_neg same, if_neg same]
    · rw [if_neg here, lookup_cons_eq_ite, ih]
      by_cases same : other = held
      · rw [if_pos same, if_pos same, if_neg fun eq => here (same.symm.trans eq)]
      · rw [if_neg same, if_neg same]

theorem put_concat_cons {entries : List (String × Entry)} {name : String} {inner : Entry}
    (there : entries.lookup name = some inner) (new : Entry) (place : List String) (last : String) :
    (directory entries).put new (name :: (place ++ [last])) =
      directory (putName name (inner.put new (place ++ [last])) entries) := by
  cases place with
  | nil => simp [put, there]
  | cons next place => simp [put, there]

theorem at?_put {entry : Entry} {place : List String} {entries : List (String × Entry)}
    (h : entry.at? place = some (directory entries)) (name : String) (new : Entry)
    (rest : List String) :
    (entry.put new (place ++ [name])).at? (place ++ [name] ++ rest) = new.at? rest := by
  induction place generalizing entry with
  | nil =>
    obtain rfl := Option.some.inj h
    rw [List.nil_append, put, List.singleton_append, at?_cons]
    show (((putName name new entries).lookup name).bind _) = _
    rw [lookup_putName, if_pos rfl]
    rfl
  | cons first place ih =>
    rw [at?_cons, Option.bind_eq_some_iff] at h
    obtain ⟨inner, there, h⟩ := h
    cases entry with
    | file content => cases there
    | directory held =>
      have there : held.lookup first = some inner := there
      rw [List.cons_append, put_concat_cons there, List.cons_append, at?_cons]
      show (((putName first _ held).lookup first).bind _) = _
      rw [lookup_putName, if_pos rfl]
      exact ih h

def content? : Entry → Option ByteArray
  | file content => some content
  | directory _ => none

theorem isDirectory_eq_isNone (entry : Entry) : entry.isDirectory = entry.content?.isNone := by
  cases entry <;> rfl

/-- What is put in a directory leaves files files, with the bytes that they have, and directories
directories at every other place that does not lie below it. -/
theorem content?_at?_put {entry : Entry} {place : List String}
    {entries : List (String × Entry)} (h : entry.at? place = some (directory entries))
    (name : String) (new : Entry) {other : List String} (apart : ¬place ++ [name] <+: other) :
    ((entry.put new (place ++ [name])).at? other).map content? =
      (entry.at? other).map content? := by
  induction place generalizing entry other with
  | nil =>
    obtain rfl := Option.some.inj h
    rw [List.nil_append, put]
    cases other with
    | nil => rfl
    | cons next other =>
      have ne : next ≠ name := by
        rintro rfl
        exact apart ⟨other, rfl⟩
      rw [at?_cons, at?_cons]
      show (((putName name new entries).lookup next).bind _).map _ = _
      rw [lookup_putName, if_neg ne]
      rfl
  | cons first place ih =>
    rw [at?_cons, Option.bind_eq_some_iff] at h
    obtain ⟨inner, there, h⟩ := h
    cases entry with
    | file content => cases there
    | directory held =>
      have there : held.lookup first = some inner := there
      rw [List.cons_append, put_concat_cons there]
      cases other with
      | nil => rfl
      | cons next other =>
        rw [at?_cons, at?_cons]
        show (((putName first _ held).lookup next).bind _).map _ =
          ((held.lookup next).bind _).map _
        rw [lookup_putName]
        by_cases same : next = first
        · subst same
          rw [if_pos rfl, there]
          exact ih h fun below => apart (List.cons_prefix_cons.2 ⟨rfl, below⟩)
        · rw [if_neg same]

theorem isDirectory_at?_put {entry : Entry} {place : List String}
    {entries : List (String × Entry)} (h : entry.at? place = some (directory entries))
    (name : String) (new : Entry) {other : List String} (apart : ¬place ++ [name] <+: other) :
    ((entry.put new (place ++ [name])).at? other).map isDirectory =
      (entry.at? other).map isDirectory := by
  have kinds : isDirectory = Option.isNone ∘ content? := funext isDirectory_eq_isNone
  rw [kinds, ← Option.map_map, content?_at?_put h name new apart, Option.map_map]

theorem at?_put_self {entry : Entry} {place : List String} {entries : List (String × Entry)}
    (h : entry.at? place = some (directory entries)) (name : String) (new : Entry) :
    (entry.put new (place ++ [name])).at? (place ++ [name]) = some new := by
  have put := at?_put h name new []
  rwa [List.append_nil] at put

theorem exists_at?_put {entry : Entry} {place : List String} {entries : List (String × Entry)}
    (h : entry.at? place = some (directory entries)) (name : String) (new : Entry) :
    ∃ entries', (entry.put new (place ++ [name])).at? place = some (directory entries') ∧
      entries'.lookup name = some new := by
  have longer : ¬place ++ [name] <+: place := by
    intro below
    have := below.length_le
    rw [List.length_append, List.length_singleton] at this
    omega
  have kind := isDirectory_at?_put h name new longer
  rw [h] at kind
  match there : (entry.put new (place ++ [name])).at? place, kind with
  | some (.directory entries'), _ =>
    refine ⟨entries', rfl, ?_⟩
    rw [← at?_concat there]
    exact at?_put_self h name new

/-- A file is still there when something is put elsewhere, in place of no directory. -/
theorem file_at?_put {entry : Entry} {place : List String} {entries : List (String × Entry)}
    (h : entry.at? place = some (directory entries)) {name : String}
    (free : (entries.lookup name).any isDirectory = false) (new : Entry) {other : List String}
    {content : ByteArray} (elsewhere : other ≠ place ++ [name])
    (there : entry.at? other = some (file content)) :
    (entry.put new (place ++ [name])).at? other = some (file content) := by
  have apart : ¬place ++ [name] <+: other := by
    rintro ⟨rest, rfl⟩
    have filled : rest ≠ [] := by
      rintro rfl
      exact elsewhere (List.append_nil _)
    rw [at?_append, at?_concat h] at there
    match held : entries.lookup name, free with
    | none, _ => simp [held] at there
    | some (file content), _ => simp [held, filled] at there
  have same := content?_at?_put h name new apart
  rw [there] at same
  match kept : (entry.put new (place ++ [name])).at? other, same with
  | some (file content'), same =>
    obtain rfl : content' = content := by simpa [content?] using same
    rfl

end Entry

/-! ## Places -/

namespace FileSystem

/-- Where a component leads from a place, as far as names tell. -/
def stepPlace (place : List String) : Path.Component → List String
  | .root => []
  | .here => place
  | .up => place.dropLast
  | .name name => place ++ [name]

def placeFrom (place : List String) (components : List Path.Component) : List String :=
  components.foldl stepPlace place

theorem placeFrom_append (place : List String) (components others : List Path.Component) :
    placeFrom place (components ++ others) = placeFrom (placeFrom place components) others :=
  List.foldl_append

theorem placeFrom_names (place names : List String) :
    placeFrom place (names.map .name) = place ++ names := by
  induction names generalizing place with
  | nil => exact (List.append_nil place).symm
  | cons name names ih =>
    have := ih (place ++ [name])
    rwa [List.append_assoc] at this

theorem locate_append (files : FileSystem) (place : List String)
    (components others : List Path.Component) :
    files.locate place (components ++ others) =
      match files.locate place components with
      | .ok found => files.locate found others
      | .error cause => .error cause := by
  fun_induction locate files place components with
  | case1 => rfl
  | case2 place rest ih => rw [List.cons_append, locate, ih]
  | case3 place rest ih => rw [List.cons_append, locate, ih]
  | case4 place rest entries there ih => rw [List.cons_append, locate, there, ih]
  | case5 place rest content there => rw [List.cons_append, locate, there]
  | case6 place rest there => rw [List.cons_append, locate, there]
  | case7 place name rest entries there long =>
    rw [List.cons_append, locate, there]
    dsimp only
    rw [if_pos long]
  | case8 place name rest entries there long held ih =>
    rw [List.cons_append, locate, there]
    dsimp only
    rw [if_neg long, if_pos held, ih]
  | case9 place name rest entries there long missing =>
    rw [List.cons_append, locate, there]
    dsimp only
    rw [if_neg long, if_neg missing]
  | case10 place name rest content there => rw [List.cons_append, locate, there]
  | case11 place name rest there => rw [List.cons_append, locate, there]

theorem locate_eq_placeFrom {files : FileSystem} {place found : List String}
    {components : List Path.Component} (h : files.locate place components = .ok found) :
    found = placeFrom place components := by
  fun_induction locate files place components with
  | case1 => exact (Except.ok.inj h).symm
  | case2 _ _ ih => exact ih h
  | case3 _ _ ih => exact ih h
  | case4 _ _ _ _ ih => exact ih h
  | case8 _ _ _ _ _ _ _ ih => exact ih h
  | _ => cases h

theorem locate_name {files : FileSystem} {place : List String} {entries : List (String × Entry)}
    {name : String} (there : files.root.at? place = some (.directory entries))
    (short : name.utf8ByteSize ≤ longestName) (held : (entries.lookup name).isSome) :
    files.locate place [.name name] = .ok (place ++ [name]) := by
  rw [locate, there]
  dsimp only
  rw [if_neg (Nat.not_lt.2 short), if_pos held, locate]

/-- A step that can be followed leaves a directory, in which a name is that of an entry. -/
theorem locate_step_eq_ok {files : FileSystem} {place found : List String} {step : Path.Component}
    {rest : List Path.Component} (h : files.locate place (step :: rest) = .ok found)
    (isStep : step = .up ∨ ∃ name, step = .name name) :
    ∃ entries, files.root.at? place = some (.directory entries) ∧
      ∀ name, step = .name name → name.utf8ByteSize ≤ longestName ∧
        (entries.lookup name).isSome := by
  rcases isStep with rfl | ⟨name, rfl⟩
  · rw [locate] at h
    split at h
    · next entries there => exact ⟨entries, there, by rintro _ ⟨⟩⟩
    · cases h
    · cases h
  · rw [locate] at h
    split at h
    · next entries there =>
      split at h
      · cases h
      · next short =>
        split at h
        · next held => exact ⟨entries, there, by rintro _ ⟨⟩; exact ⟨Nat.not_lt.1 short, held⟩⟩
        · cases h
    · cases h
    · cases h

theorem locate_append_eq_ok {files : FileSystem} {place found : List String}
    {components others : List Path.Component}
    (h : files.locate place (components ++ others) = .ok found) :
    ∃ between, files.locate place components = .ok between ∧
      files.locate between others = .ok found := by
  rw [locate_append] at h
  split at h
  · next between first => exact ⟨between, first, h⟩
  · cases h

/-- One tree has every entry of another, and its directories as directories. -/
structure Extends (before after : FileSystem) : Prop where
  workingDirectory : after.workingDirectory = before.workingDirectory
  there : ∀ place, (before.root.at? place).isSome → (after.root.at? place).isSome
  directory : ∀ place, (before.root.at? place).any Entry.isDirectory →
    (after.root.at? place).any Entry.isDirectory

/-- What can be followed can be followed in a tree that has more entries. -/
theorem Extends.locate {before after : FileSystem} (h : before.Extends after)
    {place found : List String} {components : List Path.Component}
    (located : before.locate place components = .ok found) :
    after.locate place components = .ok found := by
  have directory : ∀ {place : List String} {entries : List (String × Entry)},
      before.root.at? place = some (.directory entries) →
        ∃ entries, after.root.at? place = some (.directory entries) := by
    intro place entries there
    have := h.directory place (by rw [there]; rfl)
    match after.root.at? place, this with
    | some (.directory entries), _ => exact ⟨entries, rfl⟩
  fun_induction FileSystem.locate before place components with
  | case1 => exact located
  | case2 _ _ ih => exact ih located
  | case3 _ _ ih => exact ih located
  | case4 place rest entries there ih =>
    obtain ⟨entries, there⟩ := directory there
    rw [FileSystem.locate, there]
    exact ih located
  | case8 place name rest entries there long held ih =>
    obtain ⟨later, there'⟩ := directory there
    have kept := h.there (place ++ [name]) (by rw [Entry.at?_concat there]; exact held)
    rw [Entry.at?_concat there'] at kept
    rw [FileSystem.locate, there']
    dsimp only
    rw [if_neg long, if_pos kept]
    exact ih located
  | _ => cases located

end FileSystem

end BuildTargets
