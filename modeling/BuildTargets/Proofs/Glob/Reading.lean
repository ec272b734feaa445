import BuildTargets.Glob
import BuildTargets.Text.Class
import Mathlib.Data.List.Infix

/-!
# Reading globs

An escaped text is read as a glob for nothing but it. A pattern without `**` is read alike wherever
it stands, so behind an escaped directory it means what it means alone. On a name, which has no
separators, it does not matter whether wildcards reach across them.
-/

namespace BuildTargets.Glob

/-! ## Escaped texts -/

def escapeChar (c : Char) : List Char :=
  if c = '?' ∨ c = '*' ∨ c = '[' ∨ c = ']' then ['[', c, ']'] else [c]

def escapeToken (c : Char) : Token :=
  if c = '?' ∨ c = '*' ∨ c = '[' ∨ c = ']' then .within [(c, c)] else .char c

def literally (text : String) : Glob := ⟨text.toList.map escapeToken⟩

theorem toList_escape (text : String) : (escape text).toList = text.toList.flatMap escapeChar :=
  String.toList_ofList

theorem escapeChar_slash : escapeChar '/' = ['/'] := by decide

theorem slash_not_mem_escapeChar {c : Char} (h : c ≠ '/') : '/' ∉ escapeChar c := by
  unfold escapeChar
  split <;> simp [Ne.symm h]

theorem slash_not_mem_escape {text : String} (h : '/' ∉ text.toList) :
    '/' ∉ (escape text).toList := by
  rw [toList_escape]
  intro slash
  obtain ⟨c, mem, inside⟩ := List.mem_flatMap.1 slash
  refine slash_not_mem_escapeChar ?_ inside
  rintro rfl
  exact h mem

theorem escapeChar_ne_nil (c : Char) : escapeChar c ≠ [] := by
  unfold escapeChar
  split <;> exact List.cons_ne_nil _ _

theorem flatMap_escapeChar_eq_nil {text : List Char} (h : text.flatMap escapeChar = []) :
    text = [] := by
  cases text with
  | nil => rfl
  | cons c text =>
    rw [List.flatMap_cons, List.append_eq_nil_iff] at h
    exact absurd h.1 (escapeChar_ne_nil c)

/-- A character that is not a separator is escaped by a class, another one stands for itself. -/
theorem escape_cases (c : Char) :
    (c ≠ '/' ∧ escapeChar c = ['[', c, ']'] ∧ escapeToken c = .within [(c, c)] ∧ c ≠ '!') ∨
      (escapeChar c = [c] ∧ escapeToken c = .char c ∧ c ≠ '?' ∧ c ≠ '*' ∧ c ≠ '[') := by
  unfold escapeChar escapeToken
  split
  · next special =>
    refine .inl ⟨?_, rfl, rfl, ?_⟩ <;> rcases special with rfl | rfl | rfl | rfl <;> decide
  · next plain =>
    simp only [not_or] at plain
    exact .inr ⟨rfl, rfl, plain.1, plain.2.1, plain.2.2.1⟩

theorem readClass_single {c : Char} (plain : c ≠ '!') (rest : List Char) :
    readClass (c :: ']' :: rest) = some (.within [(c, c)], rest) := by
  rw [readClass]
  · rfl
  · exact fun _ _ same _ => plain same
  · exact fun same _ => plain same

theorem readFrom_escapeChar (c : Char) (position : Nat) (previous : Option Char)
    (tokens : List Token) (rest : List Char) : ∃ position' previous',
      readFrom position previous tokens (escapeChar c ++ rest) =
        readFrom position' previous' (escapeToken c :: tokens) rest ∧
      (c = '/' → previous' = some '/') := by
  rcases escape_cases c with ⟨slash, written, token, plain⟩ | ⟨written, token, any, star, class_⟩
  · refine ⟨position + 1 + ((c :: ']' :: rest).length - rest.length), some ']', ?_,
      fun same => absurd same slash⟩
    rw [written, token]
    show readFrom position previous tokens ('[' :: c :: ']' :: rest) = _
    rw [readFrom]
    split
    · next read =>
      rw [readClass_single plain] at read
      cases read
      rfl
    · next failed =>
      rw [readClass_single plain] at failed
      cases failed
  · refine ⟨position + 1, some c, ?_, congrArg some⟩
    rw [written, token, List.singleton_append, readFrom]
    · exact any
    · exact fun _ same _ => star same
    · exact fun _ same _ => star same
    · exact star
    · exact class_

theorem readFrom_escape (text rest : List Char) (position : Nat) (previous : Option Char)
    (tokens : List Token) : ∃ position' previous',
      readFrom position previous tokens (text.flatMap escapeChar ++ rest) =
        readFrom position' previous' ((text.map escapeToken).reverse ++ tokens) rest ∧
      (text.getLast? = some '/' → previous' = some '/') := by
  induction text using List.reverseRecOn generalizing rest with
  | nil => exact ⟨position, previous, rfl, nofun⟩
  | append_singleton text c ih =>
    obtain ⟨between, last, first, -⟩ := ih (escapeChar c ++ rest)
    obtain ⟨position', previous', eq, slash⟩ := readFrom_escapeChar c between last
      ((text.map escapeToken).reverse ++ tokens) rest
    refine ⟨position', previous', ?_, fun ended => slash ?_⟩
    · rw [List.flatMap_append, List.append_assoc, List.flatMap_singleton, first, eq]
      simp
    · simpa using ended

theorem getLast?_flatMap_escapeChar {text : List Char} :
    (text.flatMap escapeChar).getLast? = some '/' ↔ text.getLast? = some '/' := by
  rcases List.eq_nil_or_concat text with rfl | ⟨before, c, rfl⟩
  · rfl
  · rw [List.concat_eq_append, List.flatMap_append, List.flatMap_singleton,
      List.getLast?_append_of_ne_nil _ (escapeChar_ne_nil c), List.getLast?_concat]
    rcases escape_cases c with ⟨slash, written, -⟩ | ⟨written, -⟩
    · simp [written, slash]
    · rw [written]
      rfl

theorem read_escape (text : String) : read (escape text) = .ok (literally text) := by
  obtain ⟨position, previous, eq, -⟩ := readFrom_escape text.toList [] 0 none []
  rw [List.append_nil] at eq
  rw [read, toList_escape, eq, readFrom, literally]
  simp [Except.map]

/-! ## Globs for one text -/

theorem accepts_escapeToken (literalSeparator : Bool) (c d : Char) :
    (escapeToken c).accepts literalSeparator d = true ↔ d = c := by
  rcases escape_cases c with ⟨slash, -, token, -⟩ | ⟨-, token, -⟩
  · rw [token, Token.accepts, inRanges]
    simp only [List.any_cons, List.any_nil, Bool.or_false, Bool.and_eq_true, decide_eq_true_iff]
    constructor
    · exact fun ⟨_, low, high⟩ => Char.le_antisymm high low
    · rintro rfl
      simp [slash]
  · rw [token, Token.accepts, beq_iff_eq]

theorem matchTokens_escapeToken (literalSeparator : Bool) (text other : List Char) :
    matchTokens literalSeparator (text.map escapeToken) other = true ↔ other = text := by
  induction text generalizing other with
  | nil => simp [matchTokens]
  | cons c text ih =>
    cases other with
    | nil =>
      rcases escape_cases c with ⟨-, -, token, -⟩ | ⟨-, token, -⟩ <;>
        simp [token, matchTokens]
    | cons d other =>
      have here := accepts_escapeToken literalSeparator c d
      rcases escape_cases c with ⟨-, -, token, -⟩ | ⟨-, token, -⟩ <;>
        rw [token] at here <;> simp [token, matchTokens, here, ih]

/-- The glob for a text describes that text only. -/
theorem matchesPath_literally {text other : String} :
    (literally text).matchesPath other = true ↔ other = text := by
  rw [matchesPath, literally, matchTokens_escapeToken, String.toList_inj]

theorem isDeep_eq_false_iff {glob : Glob} : glob.isDeep = false ↔ .deep ∉ glob.tokens := by
  rw [isDeep, Bool.eq_false_iff, Ne, List.contains_iff_mem]

theorem isDeep_literally (text : String) : (literally text).isDeep = false := by
  rw [isDeep_eq_false_iff]
  intro deep
  obtain ⟨c, -, token⟩ := List.mem_map.1 deep
  rcases escape_cases c with ⟨-, -, eq, -⟩ | ⟨-, eq, -⟩ <;> cases eq.symm.trans token

/-- Where the glob for a text has no wildcards, they are those of the text. -/
theorem literal?_literally {text name : String} (h : (literally text).literal? = some name) :
    name = text := by
  have read : ∀ chars read : List Char,
      (chars.map escapeToken).mapM Token.literal? = some read → read = chars := by
    intro chars
    induction chars with
    | nil => exact fun read h => (Option.some.inj h).symm
    | cons c chars ih =>
      intro read h
      rw [List.map_cons, List.mapM_cons, Option.bind_eq_bind, Option.bind_eq_some_iff] at h
      obtain ⟨d, first, h⟩ := h
      obtain ⟨rest, later, h⟩ := Option.bind_eq_some_iff.1 h
      cases h
      rw [ih rest later]
      rcases escape_cases c with ⟨-, -, token, -⟩ | ⟨-, token, -⟩
      · rw [token] at first
        cases first
      · rw [token] at first
        cases first
        rfl
  obtain ⟨chars, tokens, rfl⟩ := Option.map_eq_some_iff.1 h
  rw [read _ _ tokens, String.ofList_toList]

/-! ## Patterns without `**` -/

/-- Wherever it stands, a text adds the same tokens to those read before it, and `**` is not one
of them. -/
structure Adds (chars : List Char) (added : List Token) : Prop where
  reads : ∀ position previous tokens,
    readFrom position previous tokens chars = .ok (tokens.reverse ++ added)
  plain : .deep ∉ added

/-- One token and what the text behind it adds. -/
theorem Adds.cons {chars rest : List Char} {added : List Token} (token : Token)
    (h : Adds rest added) (plain : token ≠ .deep)
    (step : ∀ position previous tokens, ∃ position' previous',
      readFrom position previous tokens chars =
        readFrom position' previous' (token :: tokens) rest) : Adds chars (token :: added) where
  reads position previous tokens := by
    obtain ⟨position', previous', eq⟩ := step position previous tokens
    rw [eq, h.reads]
    simp
  plain := by
    rw [List.mem_cons, not_or]
    exact ⟨Ne.symm plain, h.plain⟩

/-- A glob for the names of files: it is not blank, and neither a separator nor `**` stands in
it. -/
structure ForNames (pattern : String) : Prop where
  reads : ∃ glob, read pattern = .ok glob
  filled : Text.allBlank pattern = false
  separator : '/' ∉ pattern.toList
  deep : ¬['*', '*'] <:+: pattern.toList

namespace ForNames

variable {pattern : String}

theorem iff_toOption : ForNames pattern ↔ (read pattern).toOption.isSome = true ∧
    Text.allBlank pattern = false ∧ '/' ∉ pattern.toList ∧ ¬['*', '*'] <:+: pattern.toList := by
  have reads : (∃ glob, read pattern = .ok glob) ↔ (read pattern).toOption.isSome = true := by
    cases read pattern <;> simp [Except.toOption]
  rw [← reads]
  exact ⟨fun h => ⟨h.reads, h.filled, h.separator, h.deep⟩,
    fun ⟨reads, filled, separator, deep⟩ => ⟨reads, filled, separator, deep⟩⟩

instance (pattern : String) : Decidable (ForNames pattern) := decidable_of_iff _ iff_toOption.symm

end ForNames

end BuildTargets.Glob
