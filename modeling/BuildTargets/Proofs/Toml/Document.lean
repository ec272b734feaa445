import BuildTargets.Proofs.Toml.Text

/-!
# Written documents are read back

A document of tables whose members are texts, truth values and lists of texts is read back statement
by statement. `Reads chars result` says that some characters are statements to the end of a
document, which come to `result`; there is one lemma for each kind of statement.
-/

namespace BuildTargets.Toml

/-! ## Blanks -/

theorem skipSpace_blank (rest : List Char) :
    skipSpace false (' ' :: rest) = skipSpace false rest := by
  rw [skipSpace]
  · rfl
  all_goals nofun

theorem skipSpace_lineFeed (inComment : Bool) (rest : List Char) :
    skipSpace inComment ('\n' :: rest) = skipSpace false rest := by
  rw [skipSpace]

/-- A character that is no blank and begins no comment. -/
def isSolid (c : Char) : Bool :=
  c != ' ' && c != '\t' && c != '\n' && c != '\r' && c != '#'

theorem skipSpace_solid {c : Char} (solid : isSolid c = true) (rest : List Char) :
    skipSpace false (c :: rest) = some (c :: rest) := by
  simp only [isSolid, Bool.and_eq_true, bne_iff_ne] at solid
  obtain ⟨⟨⟨⟨blank, tab⟩, lineFeed⟩, carriage⟩, hash⟩ := solid
  rw [skipSpace]
  · simp [blank, tab, hash]
  · exact fun _ same _ => carriage same
  · exact lineFeed

theorem skipBlanks_solid {c : Char} (solid : isSolid c = true) (rest : List Char) :
    skipBlanks (c :: rest) = c :: rest := by
  simp only [isSolid, Bool.and_eq_true, bne_iff_ne] at solid
  simp [skipBlanks, solid]

/-- Whether characters are lines that are empty or comments; `inComment` says that a comment has
begun. -/
def areComments (inComment : Bool) : List Char → Bool
  | [] => !inComment
  | c :: rest =>
    if c = '\n' then areComments false rest
    else if inComment then !isControl c && areComments true rest
    else c = '#' && areComments true rest

theorem skipSpace_comments {inComment : Bool} {text : List Char} (rest : List Char)
    (comments : areComments inComment text = true) :
    skipSpace inComment (text ++ rest) = skipSpace false rest := by
  induction text generalizing inComment with
  | nil => cases inComment with
    | false => rfl
    | true => cases comments
  | cons c text ih =>
    rw [areComments] at comments
    rw [List.cons_append]
    by_cases lineFeed : c = '\n'
    · rw [if_pos lineFeed] at comments
      rw [lineFeed, skipSpace_lineFeed, ih comments]
    · rw [if_neg lineFeed] at comments
      cases inComment with
      | true =>
        simp only [if_pos, Bool.and_eq_true, Bool.not_eq_true'] at comments
        rw [skipSpace]
        · rw [if_pos rfl, comments.1, if_neg Bool.false_ne_true, ih comments.2]
        · rintro _ rfl
          cases comments.1
        · exact lineFeed
      | false =>
        simp only [Bool.false_eq_true, if_false, Bool.and_eq_true, decide_eq_true_eq] at comments
        obtain ⟨rfl, comments⟩ := comments
        rw [skipSpace, ← ih comments]
        · rfl
        all_goals nofun

/-! ## Keys -/

theorem writeKey_eq_cons (key : String) :
    ∃ c more, writeKey key = c :: more ∧ isSolid c = true ∧ c ≠ '[' := by
  unfold writeKey
  dsimp only
  split
  · next bare =>
    simp only [Bool.and_eq_true, Bool.not_eq_true', List.isEmpty_eq_false_iff,
      List.all_eq_true] at bare
    obtain ⟨inhabited, bare⟩ := bare
    cases text : key.toList with
    | nil => exact absurd text inhabited
    | cons c more =>
      rw [text] at bare
      refine ⟨c, more, rfl, ?_⟩
      have isBare := bare c List.mem_cons_self
      refine ⟨?_, ?_⟩
      · simp only [isSolid, Bool.and_eq_true, bne_iff_ne]
        refine ⟨⟨⟨⟨?_, ?_⟩, ?_⟩, ?_⟩, ?_⟩ <;> rintro rfl <;> cases isBare
      · rintro rfl
        cases isBare
  · unfold Style.forKey
    dsimp only
    split
    · exact ⟨_, _, rfl, rfl, by decide⟩
    · split
      · exact ⟨_, _, rfl, rfl, by decide⟩
      · exact ⟨_, _, rfl, rfl, by decide⟩

theorem writeKeys_eq_cons (key : String) (keys : List String) :
    ∃ c more, writeKeys (key :: keys) = c :: more ∧ isSolid c = true ∧ c ≠ '[' := by
  obtain ⟨c, more, written, solid, bracket⟩ := writeKey_eq_cons key
  cases keys with
  | nil => exact ⟨c, more, written, solid, bracket⟩
  | cons second keys =>
    refine ⟨c, more ++ '.' :: writeKeys (second :: keys), ?_, solid, bracket⟩
    rw [writeKeys, written, List.cons_append]
    nofun

theorem skipBlanks_writeKey (key : String) (rest : List Char) :
    skipBlanks (writeKey key ++ rest) = writeKey key ++ rest := by
  obtain ⟨c, more, written, solid, -⟩ := writeKey_eq_cons key
  rw [written, List.cons_append, skipBlanks_solid solid]

theorem readKeys_writeKeys {keys : List String} {rest : List Char} (inhabited : keys ≠ [])
    (next : ∀ c ∈ rest.head?, isBare c = false) (point : ∀ more, skipBlanks rest ≠ '.' :: more)
    {fuel : Nat} (enough : (writeKeys keys).length ≤ fuel) :
    readKeys fuel (writeKeys keys ++ rest) = some (keys, skipBlanks rest) := by
  induction keys generalizing fuel with
  | nil => exact absurd rfl inhabited
  | cons key keys ih =>
    obtain ⟨c, more, written, -⟩ := writeKey_eq_cons key
    cases keys with
    | nil =>
      obtain _ | fuel := fuel
      · simp [writeKeys, written] at enough
      · rw [writeKeys, readKeys, skipBlanks_writeKey, readKey_writeKey key next]
        simp only [Option.bind_eq_bind, Option.bind_some]
        rfl
    | cons second keys =>
      obtain _ | fuel := fuel
      · simp [writeKeys, written] at enough
      · have length : (writeKeys (second :: keys)).length ≤ fuel := by
          rw [writeKeys, written] at enough
          simp only [List.cons_append, List.length_cons, List.length_append] at enough
          omega
          all_goals nofun
        rw [writeKeys, List.append_assoc, readKeys, skipBlanks_writeKey,
          readKey_writeKey key (by simp [isBare])]
        · simp only [List.cons_append, Option.bind_eq_bind, Option.bind_some,
            skipBlanks_solid (show isSolid '.' = true from rfl), ih (List.cons_ne_nil _ _) length]
          rfl
        · nofun

/-! ## Values -/

/-- A text, a truth value or a list of texts. -/
inductive Simple : Value → Prop where
  | text (text : String) : Simple (.string text)
  | bool (value : Bool) : Simple (.bool value)
  | texts (texts : List String) : Simple (.array (texts.map .string))

theorem writeText_eq_cons (style : Style) (text : List Char) :
    ∃ quote more, writeText style text = quote :: more ∧ (quote = '"' ∨ quote = '\'') := by
  cases style
  · exact ⟨_, _, rfl, .inl rfl⟩
  · exact ⟨_, _, rfl, .inr rfl⟩
  · exact ⟨_, _, rfl, .inl rfl⟩
  · exact ⟨_, _, rfl, .inr rfl⟩

theorem readValue_text (fuel depth : Nat) (text : String) {rest : List Char}
    (double : rest.head? ≠ some '"') (single : rest.head? ≠ some '\'') :
    readValue (fuel + 1) depth ((Value.string text).write ++ rest) = some (.string text, rest) := by
  have read := readText_writeText text.toList double single
  obtain ⟨quote, more, written, which⟩ := writeText_eq_cons (Style.forText text.toList) text.toList
  rw [Value.write]
  rw [written, List.cons_append] at read ⊢
  rcases which with rfl | rfl
  · rw [readValue, read]
    simp
  · rw [readValue, read]
    simp

theorem readValue_bool (fuel depth : Nat) (value : Bool) (rest : List Char) :
    readValue (fuel + 1) depth ((Value.bool value).write ++ '\n' :: rest) =
      some (.bool value, '\n' :: rest) := by
  cases value with
  | true =>
    have word : takeWord ('t' :: 'r' :: 'u' :: 'e' :: '\n' :: rest) =
        (['t', 'r', 'u', 'e'], '\n' :: rest) := by simp [takeWord, isWordChar, isBare]
    rw [Value.write]
    show readValue (fuel + 1) depth ('t' :: 'r' :: 'u' :: 'e' :: '\n' :: rest) = _
    rw [readValue, word]
    · rfl
    all_goals nofun
  | false =>
    have word : takeWord ('f' :: 'a' :: 'l' :: 's' :: 'e' :: '\n' :: rest) =
        (['f', 'a', 'l', 's', 'e'], '\n' :: rest) := by simp [takeWord, isWordChar, isBare]
    rw [Value.write]
    show readValue (fuel + 1) depth ('f' :: 'a' :: 'l' :: 's' :: 'e' :: '\n' :: rest) = _
    rw [readValue, word]
    · rfl
    all_goals nofun

theorem write_eq_cons (text : String) :
    ∃ c more, (Value.string text).write = c :: more ∧ isSolid c = true ∧ c ≠ ']' := by
  rw [Value.write]
  obtain ⟨quote, more, written, rfl | rfl⟩ :=
    writeText_eq_cons (Style.forText text.toList) text.toList
  · exact ⟨_, more, written, rfl, by decide⟩
  · exact ⟨_, more, written, rfl, by decide⟩

theorem readElements_end {chars after : List Char} (fuel depth : Nat)
    (bracket : skipSpace false chars = some (']' :: after)) :
    readElements (fuel + 1) depth chars = some ([], after) := by
  rw [readElements, bracket]
  rfl

theorem readElements_text (fuel depth : Nat) (text : String) (rest : List Char)
    {chars after : List Char} {values : List Value}
    (begins : skipSpace false chars = some ((Value.string text).write ++ rest))
    (double : rest.head? ≠ some '"') (single : rest.head? ≠ some '\'')
    (goes_on : match skipSpace false rest with
      | some (']' :: last) => values = [] ∧ after = last
      | some (',' :: rest) => readElements (fuel + 1) depth rest = some (values, after)
      | _ => False) :
    readElements (fuel + 2) depth chars = some (.string text :: values, after) := by
  obtain ⟨c, more, written, -, bracket⟩ := write_eq_cons text
  have read := readValue_text fuel depth text double single
  rw [readElements, begins]
  rw [written, List.cons_append] at read ⊢
  simp only [Option.bind_eq_bind, Option.bind_some]
  split
  · next eq => exact absurd (List.cons.inj eq).1 bracket
  · rw [read]
    split at goes_on
    · next eq =>
      obtain ⟨rfl, rfl⟩ := goes_on
      simp [eq]
    · next eq => simp [eq, goes_on]
    · cases goes_on

theorem readElements_lines (depth : Nat) (texts : List String) (rest : List Char) {fuel : Nat}
    (enough : texts.length < fuel) :
    readElements fuel depth ('\n' :: ((texts.map Value.string).flatMap (fun value =>
      [' ', ' ', ' ', ' '] ++ value.write ++ [',', '\n']) ++ ']' :: rest)) =
      some (texts.map .string, rest) := by
  induction texts generalizing fuel with
  | nil =>
    obtain _ | fuel := fuel
    · cases enough
    · exact readElements_end fuel depth ((skipSpace_lineFeed false _).trans
        (skipSpace_solid rfl rest))
  | cons text texts ih =>
    obtain _ | _ | fuel := fuel
    · cases enough
    · simp at enough
    · obtain ⟨c, more, written, solid, -⟩ := write_eq_cons text
      refine readElements_text fuel depth text (',' :: '\n' :: ((texts.map Value.string).flatMap
        (fun value => [' ', ' ', ' ', ' '] ++ value.write ++ [',', '\n']) ++ ']' :: rest)) ?_
        (by simp) (by simp) ?_
      · simp [skipSpace_lineFeed, skipSpace_blank, written, skipSpace_solid solid]
      · rw [skipSpace_solid rfl]
        exact ih (by simpa using enough)

theorem readValue_array {fuel depth : Nat} {chars after : List Char} {elements : List Value}
    (read : readElements fuel depth chars = some (elements, after)) :
    readValue (fuel + 1) (depth + 1) ('[' :: chars) = some (.array elements, after) := by
  rw [readValue, read]
  rfl

/-- A list takes more characters than it has elements. -/
theorem length_le_lines (texts : List String) :
    texts.length ≤ ((texts.map Value.string).flatMap fun value =>
      [' ', ' ', ' ', ' '] ++ value.write ++ [',', '\n']).length := by
  induction texts with
  | nil => exact Nat.zero_le _
  | cons text texts ih =>
    simp only [List.map_cons, List.flatMap_cons, List.length_append, List.length_cons] at ih ⊢
    omega

/-- **The value of a member is read back** up to the end of its line. -/
theorem readValue_writeValue {value : Value} (simple : Simple value) (depth : Nat)
    (rest : List Char) {fuel : Nat} (enough : (writeValue value).length < fuel) :
    readValue fuel (depth + 1) (writeValue value ++ '\n' :: rest) =
      some (value, '\n' :: rest) := by
  obtain _ | fuel := fuel
  · cases enough
  cases simple with
  | text text => exact readValue_text fuel (depth + 1) text (by simp) (by simp)
  | bool value => exact readValue_bool fuel (depth + 1) value rest
  | texts texts =>
    match texts with
    | [] =>
      obtain _ | fuel := fuel
      · simp [writeValue, Value.write] at enough
      · exact readValue_array (readElements_end fuel depth (skipSpace_solid rfl _))
    | [text] =>
      obtain _ | _ | fuel := fuel
      · cases Nat.not_lt_zero _ (Nat.lt_of_succ_lt_succ enough)
      · simp only [List.map_cons, List.map_nil, writeValue, Value.write, List.length_cons,
          List.length_append] at enough
        omega
      · have written : writeValue (.array ([text].map .string)) ++ '\n' :: rest =
            '[' :: ((Value.string text).write ++ ']' :: '\n' :: rest) := by
          simp [writeValue, Value.write, writeElements]
        obtain ⟨c, more, quoted, solid, -⟩ := write_eq_cons text
        rw [written]
        refine readValue_array (readElements_text fuel depth text (']' :: '\n' :: rest) ?_
          (by simp) (by simp) ?_)
        · rw [quoted, List.cons_append, skipSpace_solid solid]
        · rw [skipSpace_solid rfl]
          exact ⟨rfl, rfl⟩
    | first :: second :: texts =>
      have lines := length_le_lines (first :: second :: texts)
      have written : writeValue (.array ((first :: second :: texts).map .string)) ++ '\n' :: rest =
          '[' :: '\n' :: (((first :: second :: texts).map Value.string).flatMap (fun value =>
            [' ', ' ', ' ', ' '] ++ value.write ++ [',', '\n']) ++ ']' :: '\n' :: rest) := by
        simp [writeValue]
      have length : (first :: second :: texts).length < fuel := by
        simp only [List.map_cons, writeValue, List.length_cons,
          List.length_append] at enough lines ⊢
        omega
      rw [written]
      exact readValue_array (readElements_lines depth _ _ length)

theorem writeValue_eq_cons {value : Value} (simple : Simple value) :
    ∃ c more, writeValue value = c :: more ∧ isSolid c = true := by
  cases simple with
  | text text =>
    obtain ⟨c, more, written, solid, -⟩ := write_eq_cons text
    exact ⟨c, more, written, solid⟩
  | bool value => cases value <;> exact ⟨_, _, rfl, rfl⟩
  | texts texts =>
    match texts with
    | [] => exact ⟨_, _, rfl, rfl⟩
    | [text] => exact ⟨_, _, rfl, rfl⟩
    | first :: second :: texts => exact ⟨_, _, rfl, rfl⟩

/-! ## Statements -/

def assignmentsOf (members : List (String × Value)) : List (List String × Value) :=
  members.map fun member => ([member.1], member.2)

/-- A table with members on lines of their own under its header. -/
structure Part where
  path : List String
  members : List (String × Value)

namespace Part

def write (part : Part) : List Char :=
  '[' :: writeKeys part.path ++ [']', '\n'] ++ part.members.flatMap writeLine

def read (part : Part) : Section := ⟨false, part.path, assignmentsOf part.members⟩

/-- The table has a name, and its members are simple. -/
structure Plain (part : Part) : Prop where
  named : part.path ≠ []
  simple : ∀ member ∈ part.members, Simple member.2

end Part

/-- Characters are statements to the end of a document: with enough fuel they are read, and come
to some members and some sections behind them. -/
def Reads (chars : List Char) (result : List (List String × Value) × List Section) : Prop :=
  ∀ fuel, chars.length < fuel → readStatements fuel chars = some result

namespace Reads

variable {chars rest : List Char} {result : List (List String × Value) × List Section}
  {assignments : List (List String × Value)} {sections : List Section}

theorem ended : Reads [] ([], []) := by
  intro fuel enough
  obtain _ | fuel := fuel
  · cases enough
  · rfl

/-- What is skipped at the start of a document does not count. -/
theorem skip (reads : Reads rest result) (skips : skipSpace false chars = skipSpace false rest)
    (le : rest.length ≤ chars.length) : Reads chars result := by
  intro fuel enough
  have same := reads fuel (by omega)
  obtain _ | fuel := fuel
  · cases enough
  · rw [readStatements] at same ⊢
    rw [skips, same]

theorem lineFeed (reads : Reads rest result) : Reads ('\n' :: rest) result :=
  reads.skip (skipSpace_lineFeed false rest) (by simp)

theorem comments (reads : Reads rest result) {text : List Char}
    (comments : areComments false text = true) : Reads (text ++ rest) result :=
  reads.skip (skipSpace_comments rest comments) (by simp)

/-- A line is read as a member. -/
theorem line (reads : Reads rest (assignments, sections)) (key : String) {value : Value}
    (simple : Simple value) :
    Reads (writeLine (key, value) ++ rest) (([key], value) :: assignments, sections) := by
  intro fuel enough
  obtain _ | fuel := fuel
  · cases enough
  obtain ⟨c, more, written, solid, bracket⟩ := writeKey_eq_cons key
  obtain ⟨first, others, value_written, value_solid⟩ := writeValue_eq_cons simple
  have shape : writeLine (key, value) ++ rest =
      writeKey key ++ ' ' :: '=' :: ' ' :: (writeValue value ++ '\n' :: rest) := by
    simp [writeLine]
  rw [shape] at enough ⊢
  simp only [List.length_append, List.length_cons] at enough
  have begins : skipSpace false
      (writeKey key ++ ' ' :: '=' :: ' ' :: (writeValue value ++ '\n' :: rest)) =
      some (writeKey key ++ ' ' :: '=' :: ' ' :: (writeValue value ++ '\n' :: rest)) := by
    rw [written, List.cons_append, skipSpace_solid solid]
  have keys : readKeys fuel
      (writeKey key ++ ' ' :: '=' :: ' ' :: (writeValue value ++ '\n' :: rest)) =
      some ([key], '=' :: ' ' :: (writeValue value ++ '\n' :: rest)) :=
    readKeys_writeKeys (List.cons_ne_nil key []) (by simp [isBare]) (by simp [skipBlanks])
      (by rw [writeKeys]; omega)
  have blanks : skipBlanks (' ' :: (writeValue value ++ '\n' :: rest)) =
      writeValue value ++ '\n' :: rest := by
    rw [value_written, List.cons_append]
    exact skipBlanks_solid value_solid _
  have read := readValue_writeValue simple 79 rest (show (writeValue value).length < fuel by omega)
  have later := reads fuel (by omega)
  rw [readStatements, begins]
  simp only [Option.bind_eq_bind, Option.bind_some]
  split
  · next eq => simp [written] at eq
  · next eq => exact absurd (List.cons.inj (written ▸ eq)).1 bracket
  · next eq => exact absurd (List.cons.inj (written ▸ eq)).1 bracket
  · rw [keys]
    simp only [Option.bind_some]
    rw [blanks, show deepest = 79 + 1 from rfl, read]
    simp [skipLineEnd, later]

/-- A header begins a section, which has the members behind it. -/
theorem header (reads : Reads rest (assignments, sections)) {path : List String}
    (inhabited : path ≠ []) :
    Reads ('[' :: (writeKeys path ++ ']' :: '\n' :: rest))
      ([], ⟨false, path, assignments⟩ :: sections) := by
  intro fuel enough
  obtain _ | fuel := fuel
  · cases enough
  simp only [List.length_append, List.length_cons] at enough
  have begins := skipSpace_solid (show isSolid '[' = true from rfl)
    (writeKeys path ++ ']' :: '\n' :: rest)
  have keys : readKeys fuel (writeKeys path ++ ']' :: '\n' :: rest) =
      some (path, ']' :: '\n' :: rest) :=
    readKeys_writeKeys inhabited (by simp [isBare]) (by simp [skipBlanks]) (by omega)
  have later := reads fuel (by omega)
  obtain ⟨key, keys', rfl⟩ := List.exists_cons_of_ne_nil inhabited
  obtain ⟨c, more, written, -, bracket⟩ := writeKeys_eq_cons key keys'
  rw [readStatements, begins]
  simp only [Option.bind_eq_bind, Option.bind_some]
  split
  · next eq => cases eq
  · next eq =>
    rw [written] at eq
    exact absurd (List.cons.inj (List.cons.inj eq).2).1 bracket
  · next eq =>
    obtain rfl := (List.cons.inj eq).2
    rw [keys]
    simp [skipLineEnd, later]
  · next other => exact absurd rfl (other _)

theorem lines (reads : Reads rest (assignments, sections)) {members : List (String × Value)}
    (simple : ∀ member ∈ members, Simple member.2) :
    Reads (members.flatMap writeLine ++ rest) (assignmentsOf members ++ assignments, sections) := by
  induction members with
  | nil => exact reads
  | cons member members ih =>
    rw [List.flatMap_cons, List.append_assoc]
    exact (ih fun other mem => simple other (List.mem_cons_of_mem _ mem)).line member.1
      (simple member List.mem_cons_self)

theorem part (reads : Reads rest ([], sections)) {part : Part} (plain : part.Plain) :
    Reads (part.write ++ rest) ([], part.read :: sections) := by
  have written : part.write ++ rest =
      '[' :: (writeKeys part.path ++ ']' :: '\n' :: (part.members.flatMap writeLine ++ rest)) := by
    simp [Part.write]
  have lines := (reads.lines plain.simple).header plain.named
  rw [List.append_nil] at lines
  rw [written]
  exact lines

/-- **Tables with empty lines between them are read as sections.** -/
theorem parts {parts : List Part} (plain : ∀ part ∈ parts, part.Plain) :
    Reads ((parts.map Part.write).intersperse ['\n']).flatten ([], parts.map Part.read) := by
  induction parts with
  | nil => exact ended
  | cons first parts ih =>
    have later := ih fun other mem => plain other (List.mem_cons_of_mem _ mem)
    cases parts with
    | nil => exact ended.part (plain first List.mem_cons_self)
    | cons second parts => exact later.lineFeed.part (plain first List.mem_cons_self)

/-- A document of members without a table and tables behind them is read as these. -/
theorem document {members : List (String × Value)} {parts : List Part}
    (simple : ∀ member ∈ members, Simple member.2) (plain : ∀ part ∈ parts, part.Plain) :
    Reads ((members.flatMap writeLine :: parts.map Part.write).intersperse ['\n']).flatten
      (assignmentsOf members, parts.map Part.read) := by
  have later := Reads.parts plain
  cases parts with
  | nil => simpa using ended.lines simple
  | cons first parts => simpa using later.lineFeed.lines simple

end Reads

end BuildTargets.Toml
