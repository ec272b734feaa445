import BuildTargets.Proofs.Glob.Reading
import BuildTargets.Proofs.Path.Components

/-!
# Parts of patterns

Whether a text can be read as a glob depends on the character before it and not on what was read
earlier. A part of a pattern that is read without wildcards is read as itself, so one that does not
begin with a dot stands for a name or for nothing.
-/

namespace BuildTargets.Glob

open Text BuildTargets.Path

variable {position : Nat} {previous : Option Char} {tokens found : List Token} {chars : List Char}
  {text name pattern : String} {glob : Glob}

/-! ## What was read before -/

theorem prefix_of_readFrom (h : readFrom position previous tokens chars = .ok found) :
    tokens.reverse <+: found := by
  have behind : ∀ (token : Token) (tokens : List Token),
      tokens.reverse <+: (token :: tokens).reverse := fun token tokens => by
    rw [List.reverse_cons]
    exact List.prefix_append _ _
  have deep : ∀ tokens : List Token, tokens.reverse <+: (pushDeep tokens).reverse := by
    intro tokens
    unfold pushDeep
    split
    · exact List.prefix_rfl
    · exact behind .deep tokens
  fun_induction readFrom position previous tokens chars with
  | case1 =>
    cases h
    exact List.prefix_rfl
  | case2 _ _ _ _ ih => exact (behind _ _).trans (ih h)
  | case4 =>
    cases h
    exact deep _
  | case5 _ _ _ _ _ _ ih => exact (deep _).trans (ih h)
  | case8 _ _ _ _ _ _ ih => exact (behind _ _).trans (ih h)
  | case9 _ _ _ _ _ _ _ _ ih => exact (behind _ _).trans (ih h)
  | case11 _ _ _ _ _ _ _ _ _ _ ih => exact (behind _ _).trans (ih h)
  | _ => cases h

/-- Whether a text can be read does not depend on the position or on what was read before. -/
theorem exists_readFrom (h : readFrom position previous tokens chars = .ok found)
    (position' : Nat) (tokens' : List Token) :
    ∃ found', readFrom position' previous tokens' chars = .ok found' := by
  fun_induction readFrom position previous tokens chars generalizing position' tokens' with
  | case1 => exact ⟨_, by rw [readFrom]⟩
  | case2 _ _ _ _ ih =>
    rw [readFrom]
    exact ih h _ _
  | case4 position previous tokens start =>
    rw [readFrom, if_pos start]
    · exact ⟨_, rfl⟩
  | case5 position previous tokens start rest two ih =>
    rw [readFrom, if_pos start]
    · rw [if_pos rfl]
      exact ih h _ _
    · exact two
  | case8 position previous tokens rest two one ih =>
    rw [readFrom]
    · exact ih h _ _
    · exact two
    · exact one
  | case9 position previous tokens rest token after class_ _ ih =>
    rw [readFrom]
    split
    · next read =>
      rw [class_] at read
      cases read
      exact ih h _ _
    · next failed =>
      rw [class_] at failed
      cases failed
  | case11 position previous tokens c rest any two one star class_ ih =>
    rw [readFrom]
    · exact ih h _ _
    · exact any
    · exact two
    · exact one
    · exact star
    · exact class_
  | _ => cases h

/-! ## Parts without wildcards -/

theorem ne_char_of_readClass {token : Token} {after : List Char}
    (h : readClass chars = some (token, after)) (c : Char) : token ≠ .char c := by
  unfold readClass at h
  split at h
  · obtain ⟨_, _, eq⟩ := Option.map_eq_some_iff.1 h
    cases eq
    nofun
  · cases h
  · obtain ⟨_, _, eq⟩ := Option.map_eq_some_iff.1 h
    cases eq
    nofun
  · cases h

theorem eq_of_readFrom (h : readFrom position previous tokens chars = .ok found)
    (plain : ∀ token ∈ found, ∃ c, token = .char c) :
    found = tokens.reverse ++ chars.map .char := by
  have wildcard : ∀ {token : Token} {tokens found : List Token},
      (token :: tokens).reverse <+: found → (∀ c, token ≠ .char c) →
        ¬∀ token ∈ found, ∃ c, token = .char c := by
    intro token tokens found front special plain
    obtain ⟨c, eq⟩ := plain token (front.mem (by simp))
    exact special c eq
  have deep : ∀ {tokens found : List Token}, (pushDeep tokens).reverse <+: found →
      ¬∀ token ∈ found, ∃ c, token = .char c := by
    intro tokens found front plain
    have mem : Token.deep ∈ (pushDeep tokens).reverse := by
      unfold pushDeep
      split
      · next stands =>
        rw [Bool.and_eq_true, beq_iff_eq] at stands
        exact List.mem_reverse.2 (List.mem_of_head? stands.2)
      · simp
    obtain ⟨c, eq⟩ := plain _ (front.mem mem)
    cases eq
  fun_induction readFrom position previous tokens chars with
  | case1 =>
    cases h
    exact (List.append_nil _).symm
  | case2 => exact absurd plain (wildcard (prefix_of_readFrom h) fun _ => Token.noConfusion)
  | case4 =>
    cases h
    exact absurd plain (deep List.prefix_rfl)
  | case5 => exact absurd plain (deep (prefix_of_readFrom h))
  | case8 => exact absurd plain (wildcard (prefix_of_readFrom h) fun _ => Token.noConfusion)
  | case9 _ _ _ _ _ _ class_ =>
    exact absurd plain (wildcard (prefix_of_readFrom h) (ne_char_of_readClass class_))
  | case11 _ _ _ _ _ _ _ _ _ _ ih =>
    rw [ih h]
    simp
  | _ => cases h

theorem tokens_of_literal? (h : glob.literal? = some name) :
    glob.tokens = name.toList.map .char := by
  have read : ∀ (tokens : List Token) (chars : List Char),
      tokens.mapM Token.literal? = some chars → tokens = chars.map .char := by
    intro tokens
    induction tokens with
    | nil =>
      rintro chars ⟨⟩
      rfl
    | cons token tokens ih =>
      intro chars h
      rw [List.mapM_cons, Option.bind_eq_bind, Option.bind_eq_some_iff] at h
      obtain ⟨c, first, h⟩ := h
      obtain ⟨rest, later, h⟩ := Option.bind_eq_some_iff.1 h
      cases h
      cases token with
      | char d =>
        cases first
        rw [ih rest later]
        rfl
      | _ => cases first
  obtain ⟨chars, tokens, rfl⟩ := Option.map_eq_some_iff.1 h
  rw [read _ _ tokens, String.toList_ofList]

theorem tokens_of_read (h : read text = .ok glob) :
    readFrom 0 none [] text.toList = .ok glob.tokens := by
  unfold read at h
  cases tokens : readFrom 0 none [] text.toList with
  | error cause =>
    rw [tokens] at h
    cases h
  | ok found =>
    rw [tokens] at h
    cases h
    rfl

theorem eq_of_literal? (h : read text = .ok glob) (literal : glob.literal? = some name) :
    name = text := by
  have tokens := tokens_of_literal? literal
  have written := eq_of_readFrom (tokens_of_read h) fun token mem => by
    rw [tokens] at mem
    obtain ⟨c, -, eq⟩ := List.mem_map.1 mem
    exact ⟨c, eq.symm⟩
  rw [tokens] at written
  have injective : Function.Injective Token.char := fun _ _ => Token.char.inj
  exact String.toList_inj.1 (List.map_injective_iff.2 injective written)

theorem head?_of_readFrom {c : Char} (h : readFrom position previous [] chars = .ok found)
    (first : found.head? = some (.char c)) : chars.head? = some c := by
  have head : ∀ {token : Token}, [token] <+: found → token = .char c := by
    rintro token ⟨later, rfl⟩
    exact Option.some.inj first
  revert h
  fun_cases readFrom position previous [] chars with
  | case1 =>
    rintro ⟨⟩
    cases first
  | case2 =>
    intro h
    cases head (prefix_of_readFrom h)
  | case4 =>
    rintro ⟨⟩
    cases first
  | case5 =>
    intro h
    cases head (prefix_of_readFrom h)
  | case8 =>
    intro h
    cases head (prefix_of_readFrom h)
  | case9 _ _ _ class_ =>
    exact fun h => absurd (head (prefix_of_readFrom h)) (ne_char_of_readClass class_ c)
  | case11 =>
    intro h
    cases head (prefix_of_readFrom h)
    rfl
  | _ => rintro ⟨⟩

/-! ## Parts that do not begin with a dot -/

/-- A relative pattern none of whose components begins with a dot. -/
structure Undotted (pattern : String) : Prop where
  relative : isAbsolute ⟨pattern⟩ = false
  head : ∀ part ∈ split '/' pattern.toList, part.head? ≠ some '.'

instance (pattern : String) : Decidable (Undotted pattern) :=
  decidable_of_iff (isAbsolute ⟨pattern⟩ = false ∧
      ∀ part ∈ split '/' pattern.toList, part.head? ≠ some '.')
    ⟨fun ⟨relative, head⟩ => ⟨relative, head⟩, fun h => ⟨h.relative, h.head⟩⟩

/-- A glob for one component that does not lead to `.` or `..`. -/
structure Descends (glob : Glob) : Prop where
  head : glob.tokens.head? ≠ some (.char '.')
  literal : ∀ name, glob.literal? = some name → name = "" ∨ IsName name

/-- A part that does not begin with a dot stands for a name or for nothing, if not for several
names. -/
theorem descends_of_read {part : List Char} (slash : '/' ∉ part) (dot : part.head? ≠ some '.')
    (h : read (String.ofList part) = .ok glob) : Descends glob where
  head first := by
    have begins := head?_of_readFrom (tokens_of_read h) first
    rw [String.toList_ofList] at begins
    exact dot begins
  literal name literal := by
    rw [eq_of_literal? h literal]
    by_cases blank : part = []
    · exact .inl (by rw [blank])
    · refine .inr ?_
      rw [IsName, String.toList_ofList]
      refine ⟨slash, blank, ?_, ?_⟩
      · rintro rfl
        exact dot rfl
      · rintro rfl
        exact dot rfl

/-- The globs that a relative pattern is read as behind a separator, component by component. -/
structure ReadAs (pattern : String) (globs : List Glob) : Prop where
  whole : ∃ found, readFrom 0 (some '/') [] pattern.toList = .ok found
  parts : (splitEnded '/' pattern.toList).mapM (fun part => read (String.ofList part)) = .ok globs

/-- A pattern that asks for a directory: there is no name at its end. -/
def ForDirectories (pattern : String) : Prop := pattern = "" ∨ pattern.toList.getLast? = some '/'

end BuildTargets.Glob
