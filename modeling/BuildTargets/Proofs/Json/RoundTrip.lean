import BuildTargets.Json.Reader
import Mathlib.Data.List.DropRight

/-!
# Written values are read back

A value whose numbers are whole and whose texts are not broken is read back as it was, in whatever
layout it was written, as long as there are only blanks between its parts.
-/

namespace BuildTargets.Json

open Text

/-! ## Texts -/

theorem readUnits_writeChar {c : Char} {rest after written : List Char} {units : List Nat}
    (h : readUnits rest = some (units, written, after)) :
    readUnits (writeChar c ++ rest) = some (c.toNat :: units, writeChar c ++ written, after) := by
  unfold writeChar
  split
  · simp [readUnits, escaped?, h]
  · simp [readUnits, escaped?, h]
  · simp [readUnits, escaped?, h]
  · simp [readUnits, escaped?, h]
  · simp [readUnits, escaped?, h]
  · simp [readUnits, escaped?, h]
  · simp [readUnits, escaped?, h]
  · next quote backslash _ _ _ _ _ =>
    split
    · next low =>
      have unit : hexUnit? '0' '0' (hexDigit (c.toNat / 16)) (hexDigit (c.toNat % 16)) =
          some c.toNat := by
        have zero : hexValue? '0' = some 0 := by decide
        rw [hexUnit?, zero, hexValue?_hexDigit (by omega), hexValue?_hexDigit (by omega)]
        simp only [Option.bind_eq_bind, Option.bind_some, Option.pure_def, Option.some.injEq]
        omega
      simp [readUnits, unit, h]
    · next high =>
      have plain : ¬(c = '\\' ∨ c.toNat < 0x20) := by
        rintro (rfl | low)
        · exact backslash rfl
        · exact high low
      rw [List.singleton_append, readUnits, if_neg plain, h]
      · rfl
      · exact quote
      · rintro _ _ _ _ _ rfl
        exact absurd rfl backslash
      · rintro _ _ rfl
        exact absurd rfl backslash

theorem readUnits_write (chars rest : List Char) :
    ∃ written, readUnits (chars.flatMap writeChar ++ '"' :: rest) =
      some (chars.map Char.toNat, written, rest) := by
  induction chars with
  | nil => exact ⟨[], rfl⟩
  | cons c chars ih =>
    obtain ⟨written, h⟩ := ih
    rw [List.flatMap_cons, List.append_assoc]
    exact ⟨_, readUnits_writeChar h⟩

/-- Characters are code units by themselves, since none is half of another. -/
theorem joinUnits_toNat (chars : List Char) : joinUnits (chars.map Char.toNat) = some chars := by
  induction chars with
  | nil => rfl
  | cons c chars ih =>
    have valid : c.toNat < 0xD800 ∨ 0xDFFF < c.toNat := c.valid.imp_right And.left
    rw [List.map_cons, joinUnits.eq_def]
    dsimp only
    rw [if_neg (by omega), if_neg (by omega), ih, Char.ofNat_toNat]
    rfl

theorem readQuoted_write (content : String) (rest : List Char) :
    readQuoted (content.toList.flatMap writeChar ++ '"' :: rest) = some (.text content, rest) := by
  obtain ⟨written, h⟩ := readUnits_write content.toList rest
  rw [readQuoted, h]
  dsimp only
  rw [joinUnits_toNat]
  dsimp only
  rw [String.ofList_toList]

/-! ## Numbers -/

/-- What follows does not go on with a number. -/
def Stops (rest : List Char) : Prop :=
  ∀ c ∈ rest.head?, isDecimal c = false ∧ c ≠ '.' ∧ c ≠ 'e' ∧ c ≠ 'E'

theorem natOfDigits_toDigits (n : Nat) : natOfDigits (Nat.toDigits 10 n) = n :=
  Nat.ofDigitChars_toDigits (by decide) (by decide)

theorem isDecimal_of_mem_toDigits {n : Nat} {c : Char} (h : c ∈ Nat.toDigits 10 n) :
    isDecimal c = true := by
  have digit : c.isDigit = true := Nat.isDigit_of_mem_toDigits (by decide) (by decide) h
  simp only [Char.isDigit, ge_iff_le, Bool.and_eq_true, decide_eq_true_eq] at digit
  simp only [isDecimal, Bool.and_eq_true, decide_eq_true_eq]
  exact digit

/-- Only zero is written with a zero in front. -/
theorem head?_toDigits {n : Nat} (h : (Nat.toDigits 10 n).head? = some '0') : n = 0 := by
  induction n using Nat.strongRecOn with
  | _ n ih =>
    rw [Nat.toDigits_eq_if (by decide)] at h
    split at h
    · next small =>
      rw [List.head?_singleton, Option.some.injEq] at h
      have := Nat.toNat_digitChar_of_lt_ten small
      rw [h] at this
      have zero : '0'.toNat = 48 := rfl
      omega
    · next large =>
      rw [List.head?_append_of_ne_nil _ Nat.toDigits_ne_nil] at h
      have := ih (n / 10) (by omega) h
      omega

theorem takeWhile_append_stops {digits rest : List Char} (all : ∀ c ∈ digits, isDecimal c = true)
    (stops : Stops rest) :
    (digits ++ rest).takeWhile isDecimal = digits ∧
      (digits ++ rest).dropWhile isDecimal = rest := by
  have none : rest.takeWhile isDecimal = [] ∧ rest.dropWhile isDecimal = rest := by
    cases rest with
    | nil => exact ⟨rfl, rfl⟩
    | cons c rest =>
      have := (stops c rfl).1
      exact ⟨List.takeWhile_cons_of_neg (by simp [this]),
        List.dropWhile_cons_of_neg (by simp [this])⟩
  rw [List.takeWhile_append_of_pos all, List.dropWhile_append_of_pos all, none.1, none.2,
    List.append_nil]
  exact ⟨rfl, rfl⟩

theorem readWhole_toDigits {rest : List Char} (n : Nat) (stops : Stops rest) :
    readWhole (Nat.toDigits 10 n ++ rest) = some (Nat.toDigits 10 n, rest) := by
  obtain ⟨taken, left⟩ :=
    takeWhile_append_stops (fun c => isDecimal_of_mem_toDigits (n := n) (c := c)) stops
  have digits : readDigits (Nat.toDigits 10 n ++ rest) = some (Nat.toDigits 10 n, rest) := by
    rw [readDigits, taken, left, if_neg]
    simp [Nat.toDigits_ne_nil]
  rw [readWhole, digits]
  split
  · next more _ eq =>
    have written := (Prod.mk.inj (Option.some.inj eq)).1
    have zero : n = 0 := head?_toDigits (by rw [written]; rfl)
    rw [zero] at written
    cases written
  · rfl

theorem readFraction_of_stops {rest : List Char} (stops : Stops rest) :
    readFraction rest = some ([], rest) := by
  unfold readFraction
  split
  · exact absurd rfl (stops _ rfl).2.1
  · rfl

theorem readExponent_of_stops {rest : List Char} (stops : Stops rest) :
    readExponent rest = some ([], rest) := by
  unfold readExponent
  split
  · have letter := (stops _ rfl).2.2
    rw [if_neg (by simp [letter])]
  · rfl

theorem toString_eq_cons (value : Int) :
    ∃ c chars, (toString value).toList = c :: chars ∧ (c = '-' ∨ isDecimal c = true) := by
  rw [Int.toString_eq_repr, Int.repr_eq_if]
  split
  · obtain ⟨c, digits, cons⟩ := List.exists_cons_of_ne_nil
      (Nat.toDigits_ne_nil (n := value.toNat) (b := 10))
    have decimal := isDecimal_of_mem_toDigits (n := value.toNat) (c := c) (by simp [cons])
    rw [Nat.toList_repr]
    exact ⟨c, digits, cons, .inr decimal⟩
  · rw [String.toList_append]
    exact ⟨'-', _, rfl, .inl rfl⟩

theorem readNumber_write {rest : List Char} (value : Int) (stops : Stops rest) :
    readNumber ((toString value).toList ++ rest) = some (.integer value, rest) := by
  rw [Int.toString_eq_repr, Int.repr_eq_if]
  split
  · next nonneg =>
    have back : ((value.toNat : Nat) : Int) = value := Int.toNat_of_nonneg nonneg
    have unsigned : ∀ tail, Nat.toDigits 10 value.toNat ++ rest ≠ '-' :: tail := by
      intro tail eq
      have head : (Nat.toDigits 10 value.toNat).head? = some '-' := by
        rw [← List.head?_append_of_ne_nil _ Nat.toDigits_ne_nil, eq]
        rfl
      cases isDecimal_of_mem_toDigits (List.mem_of_head? head)
    rw [Nat.toList_repr, readNumber.eq_2 _ unsigned, readWhole_toDigits _ stops]
    simp only [Option.bind_eq_bind, Option.bind_some, readFraction_of_stops stops,
      readExponent_of_stops stops, natOfDigits_toDigits]
    rw [← back]
    rfl
  · next negative =>
    have nonzero : (-value).toNat ≠ 0 := by omega
    have back : -(((-value).toNat : Nat) : Int) = value := by omega
    rw [String.toList_append, Nat.toList_repr, show "-".toList = ['-'] from rfl,
      List.singleton_append, List.cons_append, readNumber.eq_1, readWhole_toDigits _ stops]
    simp only [Option.bind_eq_bind, Option.bind_some, readFraction_of_stops stops,
      readExponent_of_stops stops, natOfDigits_toDigits]
    rw [back]
    simp [nonzero]

/-! ## Blanks -/

/-- What may stand around the parts of a value. -/
def Blank (chars : List Char) : Prop :=
  ∀ c ∈ chars, c = ' ' ∨ c = '\t' ∨ c = '\n' ∨ c = '\r'

theorem Blank.skipBlanks_append {blanks : List Char} (h : Blank blanks) (rest : List Char) :
    skipBlanks (blanks ++ rest) = skipBlanks rest := by
  rw [skipBlanks, List.dropWhile_append_of_pos]
  intro c mem
  simpa [or_assoc] using h c mem

theorem Blank.stops_append {blanks rest : List Char} (h : Blank blanks) (stops : Stops rest) :
    Stops (blanks ++ rest) := by
  cases blanks with
  | nil => exact stops
  | cons c blanks =>
    rintro _ ⟨⟩
    rcases h c List.mem_cons_self with rfl | rfl | rfl | rfl <;> decide

/-- There are only blanks between the parts of a value, a colon apart. -/
structure Layout.IsBlank (layout : Layout) : Prop where
  line : ∀ depth, Blank (layout.line depth)
  colon : ∃ blanks, layout.colon = ':' :: blanks ∧ Blank blanks

theorem Layout.isBlank_compact : Layout.compact.IsBlank where
  line _ := List.forall_mem_nil _
  colon := ⟨[], rfl, List.forall_mem_nil _⟩

theorem Layout.isBlank_pretty : Layout.pretty.IsBlank where
  line depth := by
    intro c mem
    rcases List.mem_cons.1 mem with rfl | mem
    · exact .inr (.inr (.inl rfl))
    · exact .inl (List.eq_of_mem_replicate mem)
  colon := ⟨[' '], rfl, fun _ mem => .inl (List.mem_singleton.1 mem)⟩

theorem readValue_congr {chars others : List Char} (h : skipBlanks chars = skipBlanks others)
    (fuel : Nat) : readValue fuel chars = readValue fuel others := by
  cases fuel with
  | zero => rw [readValue, readValue]
  | succ fuel => rw [readValue, readValue, h]

theorem readElements_congr {chars others : List Char} (h : skipBlanks chars = skipBlanks others)
    (fuel : Nat) : readElements fuel chars = readElements fuel others := by
  cases fuel with
  | zero => rw [readElements, readElements]
  | succ fuel => rw [readElements, readElements, readValue_congr h]

theorem readMembers_congr {chars others : List Char} (h : skipBlanks chars = skipBlanks others)
    (fuel : Nat) : readMembers fuel chars = readMembers fuel others := by
  cases fuel with
  | zero => rw [readMembers, readMembers]
  | succ fuel => rw [readMembers, readMembers, h]

/-! ## Values -/

def Quoted.IsText : Quoted → Prop
  | .text _ => True
  | .broken _ => False

mutual

/-- All numbers in the value are whole, and none of its texts is broken. -/
def Value.Plain : Value → Prop
  | .real _ => False
  | .string quoted => quoted.IsText
  | .array elements => PlainElements elements
  | .object members => PlainMembers members
  | _ => True

def PlainElements : List Value → Prop
  | [] => True
  | value :: rest => value.Plain ∧ PlainElements rest

def PlainMembers : List (Quoted × Value) → Prop
  | [] => True
  | (name, value) :: rest => name.IsText ∧ value.Plain ∧ PlainMembers rest

end

/-- A written value begins with a character that is neither blank nor a closing bracket. -/
theorem Value.write_eq_cons {value : Value} (plain : value.Plain) (layout : Layout) (depth : Nat) :
    ∃ c chars, value.write layout depth = c :: chars ∧ c ≠ ']' ∧
      ∀ rest, skipBlanks (c :: rest) = c :: rest := by
  have begins : ∀ {c : Char} (chars : List Char), c ∉ [']', ' ', '\t', '\n', '\r'] →
      ∃ first tail, c :: chars = first :: tail ∧ first ≠ ']' ∧
        ∀ rest, skipBlanks (first :: rest) = first :: rest := by
    intro c chars outside
    simp only [List.mem_cons, List.not_mem_nil, or_false, not_or] at outside
    refine ⟨c, chars, rfl, outside.1, fun rest => ?_⟩
    rw [skipBlanks, List.dropWhile_cons_of_neg]
    simp [outside]
  cases value with
  | null => exact begins _ (by decide)
  | bool value => cases value <;> exact begins _ (by decide)
  | real written => exact plain.elim
  | string quoted =>
    cases quoted with
    | text content => exact begins _ (by decide)
    | broken written => exact plain.elim
  | array elements => cases elements <;> exact begins _ (by decide)
  | object members =>
    match members with
    | [] => exact begins _ (by decide)
    | (name, value) :: rest => exact begins _ (by decide)
  | integer value =>
    obtain ⟨c, chars, eq, sign | decimal⟩ := toString_eq_cons value
    · rw [write, eq, sign]
      exact begins _ (by decide)
    · rw [write, eq]
      refine begins _ fun mem => ?_
      simp only [List.mem_cons, List.not_mem_nil, or_false] at mem
      rcases mem with rfl | rfl | rfl | rfl | rfl <;> cases decimal

theorem Value.skipBlanks_write {value : Value} (plain : value.Plain) (layout : Layout) (depth : Nat)
    (rest : List Char) :
    skipBlanks (value.write layout depth ++ rest) = value.write layout depth ++ rest := by
  obtain ⟨c, chars, eq, -, skip⟩ := value.write_eq_cons plain layout depth
  rw [eq]
  exact skip _

theorem Value.write_pos {value : Value} (plain : value.Plain) (layout : Layout) (depth : Nat) :
    0 < (value.write layout depth).length := by
  obtain ⟨c, chars, eq, -⟩ := value.write_eq_cons plain layout depth
  rw [eq]
  exact Nat.succ_pos _

theorem readValue_integer {rest : List Char} (value : Int) (stops : Stops rest) (fuel : Nat) :
    readValue (fuel + 1) ((toString value).toList ++ rest) = some (.integer value, rest) := by
  rw [← readNumber_write value stops, readValue]
  have plain : (Value.integer value).Plain := trivial
  have skip := Value.skipBlanks_write plain .compact 0 rest
  rw [Value.write] at skip
  rw [skip]
  obtain ⟨c, chars, eq, first⟩ := toString_eq_cons value
  rw [eq, List.cons_append]
  split
  all_goals first
    | rfl
    | next other =>
      obtain ⟨rfl, -⟩ := List.cons.inj other
      rcases first with first | first <;> cases first

theorem skipBlanks_skipBlanks (chars : List Char) :
    skipBlanks (skipBlanks chars) = skipBlanks chars :=
  List.dropWhile_idempotent _ chars

theorem readValue_array {inside : List Char} (opens : ∀ after, skipBlanks inside ≠ ']' :: after)
    (fuel : Nat) : readValue (fuel + 1) ('[' :: inside) =
      (readElements fuel inside).map fun (elements, after) => (.array elements, after) := by
  have bracket : skipBlanks ('[' :: inside) = '[' :: inside := rfl
  rw [readElements_congr (skipBlanks_skipBlanks inside).symm, readValue, bracket]
  split
  case h_5 rest eq =>
    cases eq
    split
    · next after eq => exact absurd eq (opens after)
    · rfl
  case h_7 other _ => exact absurd rfl (other inside)
  all_goals next eq => cases eq

theorem readValue_object {inside : List Char} (opens : ∀ after, skipBlanks inside ≠ '}' :: after)
    (fuel : Nat) : readValue (fuel + 1) ('{' :: inside) =
      (readMembers fuel inside).map fun (members, after) => (.object members, after) := by
  have brace : skipBlanks ('{' :: inside) = '{' :: inside := rfl
  rw [readMembers_congr (skipBlanks_skipBlanks inside).symm, readValue, brace]
  split
  case h_6 rest eq =>
    cases eq
    split
    · next after eq => exact absurd eq (opens after)
    · rfl
  case h_7 other => exact absurd rfl (other inside)
  all_goals next eq => cases eq

section Parts

variable {fuel : Nat} {chars rest more after : List Char} {value : Value}

theorem readElements_last (first : readValue fuel chars = some (value, rest))
    (ends : skipBlanks rest = ']' :: after) :
    readElements (fuel + 1) chars = some ([value], after) := by
  rw [readElements]
  simp only [first, Option.bind_eq_bind, Option.bind_some, ends, Option.pure_def]

theorem readElements_comma {values : List Value} (first : readValue fuel chars = some (value, rest))
    (comma : skipBlanks rest = ',' :: more)
    (later : readElements fuel more = some (values, after)) :
    readElements (fuel + 1) chars = some (value :: values, after) := by
  rw [readElements]
  simp only [first, Option.bind_eq_bind, Option.bind_some, comma, later, Option.pure_def]

def NameBefore (chars : List Char) (name : Quoted) (rest : List Char) : Prop :=
  ∃ quoted named, skipBlanks chars = '"' :: quoted ∧ readQuoted quoted = some (name, named) ∧
    skipBlanks named = ':' :: rest

theorem readMembers_last {name : Quoted} (named : NameBefore chars name more)
    (first : readValue fuel more = some (value, rest)) (ends : skipBlanks rest = '}' :: after) :
    readMembers (fuel + 1) chars = some ([(name, value)], after) := by
  obtain ⟨quoted, colon, opens, read, divides⟩ := named
  rw [readMembers]
  simp only [opens, read, Option.bind_eq_bind, Option.bind_some, divides, first, ends,
    Option.pure_def]

theorem readMembers_comma {name : Quoted} {members : List (Quoted × Value)} {others : List Char}
    (named : NameBefore chars name more) (first : readValue fuel more = some (value, rest))
    (comma : skipBlanks rest = ',' :: others)
    (later : readMembers fuel others = some (members, after)) :
    readMembers (fuel + 1) chars = some ((name, value) :: members, after) := by
  obtain ⟨quoted, colon, opens, read, divides⟩ := named
  rw [readMembers]
  simp only [opens, read, Option.bind_eq_bind, Option.bind_some, divides, first, comma, later,
    Option.pure_def]

end Parts

theorem Layout.IsBlank.nameBefore {layout : Layout} (blank : layout.IsBlank) {name : Quoted}
    (isText : name.IsText) (depth : Nat) (rest : List Char) :
    ∃ blanks, layout.colon = ':' :: blanks ∧ Blank blanks ∧
      NameBefore (layout.line depth ++ (name.write ++ (layout.colon ++ rest))) name
        (blanks ++ rest) := by
  obtain ⟨blanks, colon, allBlank⟩ := blank.colon
  refine ⟨blanks, colon, allBlank, ?_⟩
  cases name with
  | broken written => exact isText.elim
  | text content =>
    refine ⟨content.toList.flatMap writeChar ++ '"' :: (layout.colon ++ rest), layout.colon ++ rest,
      ?_, readQuoted_write _ _, ?_⟩
    · rw [(blank.line depth).skipBlanks_append, Quoted.write, List.append_assoc]
      rfl
    · rw [colon]
      rfl

theorem Layout.IsBlank.not_bracket_elements {layout : Layout} (blank : layout.IsBlank)
    {first : Value} (plain : first.Plain) (others : List Value) (depth : Nat)
    (rest after : List Char) :
    skipBlanks ((writeElements layout depth (first :: others)).tail ++ rest) ≠ ']' :: after := by
  obtain ⟨c, chars, eq, bracket, skip⟩ := first.write_eq_cons plain layout depth
  intro same
  simp only [writeElements, List.cons_append, List.tail_cons, List.append_assoc] at same
  rw [(blank.line _).skipBlanks_append, eq, List.cons_append, skip] at same
  exact bracket (List.cons.inj same).1

theorem Layout.IsBlank.not_brace_members {layout : Layout} (blank : layout.IsBlank)
    {name : Quoted} (isText : name.IsText) (first : Value) (others : List (Quoted × Value))
    (depth : Nat) (rest after : List Char) :
    skipBlanks ((writeMembers layout depth ((name, first) :: others)).tail ++ rest) ≠
      '}' :: after := by
  intro same
  simp only [writeMembers, List.cons_append, List.tail_cons, List.append_assoc] at same
  rw [(blank.line _).skipBlanks_append] at same
  cases name with
  | text content => cases same
  | broken written => exact isText.elim

mutual

theorem readValue_write {layout : Layout} (blank : layout.IsBlank) :
    (value : Value) → value.Plain → ∀ (depth fuel : Nat) (rest : List Char), Stops rest →
      2 * (value.write layout depth).length ≤ fuel →
        readValue fuel (value.write layout depth ++ rest) = some (value, rest)
  | value, plain, depth, 0, rest, _, enough => by
    have := value.write_pos plain layout depth
    omega
  | .null, _, _, fuel + 1, rest, _, _ => rfl
  | .bool true, _, _, fuel + 1, rest, _, _ => rfl
  | .bool false, _, _, fuel + 1, rest, _, _ => rfl
  | .integer value, _, _, fuel + 1, rest, stops, _ => readValue_integer value stops fuel
  | .real _, plain, _, _, _, _, _ => plain.elim
  | .string (.broken _), plain, _, _, _, _, _ => plain.elim
  | .string (.text content), _, _, fuel + 1, rest, _, _ => by
    rw [Value.write, Quoted.write, List.cons_append, List.cons_append, List.append_assoc]
    show (readQuoted _).map _ = _
    rw [List.singleton_append, readQuoted_write]
    rfl
  | .array [], _, _, fuel + 1, rest, _, _ => rfl
  | .object [], _, _, fuel + 1, rest, _, _ => rfl
  | .array (first :: others), plain, depth, fuel + 1, rest, _, enough => by
    have text : (Value.array (first :: others)).write layout depth ++ rest =
        '[' :: ((writeElements layout (depth + 1) (first :: others)).tail ++
          (layout.line depth ++ ']' :: rest)) := by
      simp [Value.write, writeElements]
    have read := readElements_write blank (first :: others) plain (List.cons_ne_nil _ _)
      (depth + 1) fuel (layout.line depth) rest (blank.line depth) (by
        simp only [Value.write, writeElements, List.length_append, List.length_cons,
          List.length_nil] at enough ⊢
        omega)
    rw [text, readValue_array (blank.not_bracket_elements plain.1 _ _ _), read]
    rfl
  | .object ((name, first) :: others), plain, depth, fuel + 1, rest, _, enough => by
    have text : (Value.object ((name, first) :: others)).write layout depth ++ rest =
        '{' :: ((writeMembers layout (depth + 1) ((name, first) :: others)).tail ++
          (layout.line depth ++ '}' :: rest)) := by
      simp [Value.write, writeMembers]
    have read := readMembers_write blank ((name, first) :: others) plain (List.cons_ne_nil _ _)
      (depth + 1) fuel (layout.line depth) rest (blank.line depth) (by
        simp only [Value.write, writeMembers, List.length_append, List.length_cons,
          List.length_nil] at enough ⊢
        omega)
    rw [text, readValue_object (blank.not_brace_members plain.1 _ _ _ _), read]
    rfl

theorem readElements_write {layout : Layout} (blank : layout.IsBlank) :
    (values : List Value) → PlainElements values → values ≠ [] →
      ∀ (depth fuel : Nat) (close rest : List Char), Blank close →
        2 * (writeElements layout depth values).length ≤ fuel + 1 →
          readElements fuel ((writeElements layout depth values).tail ++ (close ++ ']' :: rest)) =
            some (values, rest)
  | [], _, filled, _, _, _, _, _, _ => absurd rfl filled
  | value :: others, plain, _, depth, 0, close, rest, closed, enough => by
    have filled := value.write_pos plain.1 layout depth
    simp only [writeElements, List.length_append, List.length_cons] at enough
    omega
  | value :: others, plain, _, depth, fuel + 1, close, rest, closed, enough => by
    simp only [writeElements, List.length_append, List.length_cons] at enough
    have first : ∀ tail, Stops tail →
        readValue fuel (layout.line depth ++ (value.write layout depth ++ tail)) =
          some (value, tail) := by
      intro tail stops
      rw [readValue_congr ((blank.line depth).skipBlanks_append _)]
      exact readValue_write blank value plain.1 depth fuel tail stops (by omega)
    have text : (writeElements layout depth (value :: others)).tail ++ (close ++ ']' :: rest) =
        layout.line depth ++ (value.write layout depth ++
          (writeElements layout depth others ++ (close ++ ']' :: rest))) := by
      simp [writeElements]
    cases others with
    | nil =>
      rw [writeElements, List.nil_append] at text
      have stops : Stops (close ++ ']' :: rest) := closed.stops_append (by rintro _ ⟨⟩; decide)
      rw [text]
      exact readElements_last (first _ stops) (closed.skipBlanks_append _)
    | cons second others =>
      have filled := value.write_pos plain.1 layout depth
      have later := readElements_write blank (second :: others) plain.2 (List.cons_ne_nil _ _)
        depth fuel close rest closed (by omega)
      have stops :
          Stops (writeElements layout depth (second :: others) ++ (close ++ ']' :: rest)) :=
        by rintro _ ⟨⟩; decide
      rw [text]
      exact readElements_comma (first _ stops) rfl later

theorem readMembers_write {layout : Layout} (blank : layout.IsBlank) :
    (members : List (Quoted × Value)) → PlainMembers members → members ≠ [] →
      ∀ (depth fuel : Nat) (close rest : List Char), Blank close →
        2 * (writeMembers layout depth members).length ≤ fuel + 1 →
          readMembers fuel ((writeMembers layout depth members).tail ++ (close ++ '}' :: rest)) =
            some (members, rest)
  | [], _, filled, _, _, _, _, _, _ => absurd rfl filled
  | (name, value) :: others, plain, _, depth, 0, close, rest, closed, enough => by
    have filled := value.write_pos plain.2.1 layout depth
    simp only [writeMembers, List.length_append, List.length_cons] at enough
    omega
  | (name, value) :: others, plain, _, depth, fuel + 1, close, rest, closed, enough => by
    simp only [writeMembers, List.length_append, List.length_cons] at enough
    have named := fun rest => blank.nameBefore plain.1 depth rest
    have text :
        (writeMembers layout depth ((name, value) :: others)).tail ++ (close ++ '}' :: rest) =
        layout.line depth ++ (name.write ++ (layout.colon ++ (value.write layout depth ++
          (writeMembers layout depth others ++ (close ++ '}' :: rest))))) := by
      simp [writeMembers]
    have first : ∀ tail blanks, Blank blanks → Stops tail →
        readValue fuel (blanks ++ (value.write layout depth ++ tail)) = some (value, tail) := by
      intro tail blanks blank' stops
      rw [readValue_congr (blank'.skipBlanks_append _)]
      exact readValue_write blank value plain.2.1 depth fuel tail stops (by omega)
    cases others with
    | nil =>
      rw [writeMembers, List.nil_append] at text
      have stops : Stops (close ++ '}' :: rest) := closed.stops_append (by rintro _ ⟨⟩; decide)
      obtain ⟨blanks, -, allBlank, named⟩ :=
        named (value.write layout depth ++ (close ++ '}' :: rest))
      rw [text]
      exact readMembers_last named (first _ _ allBlank stops) (closed.skipBlanks_append _)
    | cons second others =>
      have filled := value.write_pos plain.2.1 layout depth
      have later := readMembers_write blank (second :: others) plain.2.2 (List.cons_ne_nil _ _)
        depth fuel close rest closed (by omega)
      have stops : Stops (writeMembers layout depth (second :: others) ++ (close ++ '}' :: rest)) :=
        by rintro _ ⟨⟩; decide
      obtain ⟨blanks, -, allBlank, named⟩ := named (value.write layout depth ++
        (writeMembers layout depth (second :: others) ++ (close ++ '}' :: rest)))
      rw [text]
      exact readMembers_comma named (first _ _ allBlank stops) rfl later

end

/-- **A written value is read back.** -/
theorem Value.read_write {layout : Layout} (blank : layout.IsBlank) {value : Value}
    (plain : value.Plain) (depth : Nat) :
    Value.read (String.ofList (value.write layout depth)) = some value := by
  have read := readValue_write blank value plain depth
    (2 * (value.write layout depth).length + 2) [] (by rintro _ ⟨⟩) (by omega)
  rw [List.append_nil] at read
  rw [Value.read, String.toList_ofList, read]
  rfl

theorem Value.read_pretty {value : Value} (plain : value.Plain) :
    Value.read value.pretty = some value :=
  read_write Layout.isBlank_pretty plain 0

theorem Value.read_compact {value : Value} (plain : value.Plain) :
    Value.read value.compact = some value :=
  read_write Layout.isBlank_compact plain 0

end BuildTargets.Json
