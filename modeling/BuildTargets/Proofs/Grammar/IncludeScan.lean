import BuildTargets.Proofs.Document.Lines
import BuildTargets.Proofs.Grammar.LineMatch
import BuildTargets.Proofs.Grammar.LineSearch

/-!
# Scanning a text for include directives

An include directive is a line of its own: the directive, a gap and the argument. `includeLines`
reads the directives off the lines of a text, one line after the other. The search with the include
pattern finds the same ones, whatever characters the directive is written with.
-/

namespace BuildTargets

open Text Pattern

/-- The argument of the include directive on a line: what comes behind the directive begins with a
gap, and up to its first carriage return it is not all blank. -/
def includeArgument? (directive line : List Char) : Option (List Char) :=
  let rest := line.drop directive.length
  let argument := trim (rest.takeWhile (· != '\r'))
  if directive <+: line ∧ rest.head?.any isGap ∧ argument ≠ [] then some argument else none

/-- The include directives on some lines, of which the first starts at byte `offset`. -/
def includeLines (directive : List Char) (offset : Nat) : List (List Char) → List (Nat × String)
  | [] => []
  | line :: below =>
    let entry? := (includeArgument? directive line).map fun argument =>
      (offset, String.ofList argument)
    entry?.toList ++ includeLines directive (offset + width line + 1) below

namespace Grammar

variable {grammar : Grammar} {limit : Nat} {above below : List (List Char)} {line rest : List Char}

/-! ## Gaps and blanks -/

theorem isBlank_of_isGap {c : Char} (h : isGap c = true) : isBlank c = true := by
  unfold isGap at h
  rcases Bool.or_eq_true_iff.1 h with same | same <;>
    · rw [beq_iff_eq.1 same]
      decide

theorem exists_gap (gapped : rest.head?.any isGap = true) :
    ∃ c w, rest.takeWhile isGap = c :: w := by
  cases rest with
  | nil => cases gapped
  | cons c rest => exact ⟨c, rest.takeWhile isGap, List.takeWhile_cons_of_pos gapped⟩

theorem trim_takeWhile_dropWhile_isGap (rest : List Char) :
    trim ((rest.dropWhile isGap).takeWhile (· != '\r')) = trim (rest.takeWhile (· != '\r')) := by
  have gaps : ∀ c ∈ rest.takeWhile isGap, isGap c = true := List.all_eq_true.1 List.all_takeWhile
  have whole : rest.takeWhile (· != '\r') =
      rest.takeWhile isGap ++ (rest.dropWhile isGap).takeWhile (· != '\r') := by
    rw [← List.takeWhile_append_of_pos fun c mem => bne_iff_ne.2 (ne_return_of_isGap (gaps c mem)),
      List.takeWhile_append_dropWhile]
  rw [whole, trim, trim,
    List.dropWhile_append_of_pos fun c mem => isBlank_of_isGap (gaps c mem)]

/-! ## Matches of the include pattern -/

theorem includePattern_eq (grammar : Grammar) :
    grammar.includePattern = .seq (.assert .lineStart)
      (.seq (.literal grammar.includeDirective.toList)
        (.seq (.someOf gap) (.group argumentGroup (.manyOf inLine)))) := rfl

/-- What has no line feed begins a line and all below it only if it begins the line. -/
theorem prefix_lines_iff {w : List Char} (feed : '\n' ∉ w) :
    w <+: line ++ aheadLine below ↔ w <+: line := by
  refine ⟨fun h => ?_, fun h => h.trans (List.prefix_append _ _)⟩
  rcases List.prefix_or_prefix_of_prefix h (List.prefix_append line (aheadLine below)) with
    short | ⟨more, rfl⟩
  · exact short
  · rw [List.prefix_append_right_inj] at h
    cases more with
    | nil => exact ⟨[], by simp⟩
    | cons c more =>
      cases below with
      | nil => cases List.prefix_nil.1 h
      | cons next below =>
        rw [aheadLine_cons, List.cons_prefix_cons] at h
        rw [h.1] at feed
        exact absurd (List.mem_append_right line List.mem_cons_self) feed

theorem matchAt?_include_none (single : '\n' ∉ grammar.includeDirective.toList)
    (misses : ∀ rest, line = grammar.includeDirective.toList ++ rest →
      rest.head?.any isGap = false) :
    matchAt? grammar.includePattern limit (lineAt above line below) = none := by
  rw [includePattern_eq, matchAt?_lineStart, matchAt?, run_seq, lineAt]
  by_cases begins : grammar.includeDirective.toList <+: line
  · obtain ⟨rest, rfl⟩ := begins
    have stuck : gap.holds (rest ++ aheadLine below).head? = false := by
      have plain := misses rest rfl
      cases rest with
      | nil => cases below <;> rfl
      | cons c rest => rwa [← contains_gap] at plain
    rw [List.append_assoc, run_literal_append, run_seq, run_someOf_of_not_holds stuck]
  · exact run_literal_of_not_prefix (mt (prefix_lines_iff single).1 begins)

/-- A match on a line: `front` is the directive with its gap, `back` what the argument leaves of the
line. -/
def includeFound (above : List (List Char)) (line front argument back : List Char)
    (below : List (List Char)) : Found where
  whole := ⟨lineAt above line below,
    .between (argument.reverse ++ (front.reverse ++ behindLine above)) (back ++ aheadLine below)⟩
  groups := [(argumentGroup,
    .covering (front.reverse ++ behindLine above) argument (back ++ aheadLine below))]

theorem group?_argument (above : List (List Char)) (line front argument back : List Char)
    (below : List (List Char)) :
    (includeFound above line front argument back below).group? argumentGroup =
      some (.covering (front.reverse ++ behindLine above) argument (back ++ aheadLine below)) := by
  rw [Found.group?, includeFound, List.lookup_cons_self]

/-- The argument goes on to the end of the line or to its first carriage return. -/
theorem run_argument {α : Type} (behind : List Char) (below : List (List Char))
    (k : Progress → Option α) (succeeds : ∀ now, k now ≠ none) (feed : '\n' ∉ rest)
    (long : rest.length ≤ limit) :
    run limit (.group argumentGroup (.manyOf inLine))
        ⟨.between behind (rest ++ aheadLine below), []⟩ k =
      let argument := rest.takeWhile (· != '\r')
      let back := rest.dropWhile (· != '\r') ++ aheadLine below
      k ⟨.between (argument.reverse ++ behind) back,
        [(argumentGroup, .covering behind argument back)]⟩ := by
  have inside : ∀ c ∈ rest.takeWhile (· != '\r'), inLine.contains c = true := by
    intro c mem
    have plain : c ≠ '\n' := fun eq => feed (eq ▸ (List.takeWhile_prefix _).mem mem)
    rw [contains_inLine, List.all_eq_true.1 List.all_takeWhile c mem, bne_iff_ne.2 plain]
    rfl
  have stop : inLine.holds (rest.dropWhile (· != '\r') ++ aheadLine below).head? = false := by
    cases ahead : rest.dropWhile (· != '\r') with
    | nil => cases below <;> rfl
    | cons c back =>
      have ends : (c != '\r') = false :=
        not_of_head?_dropWhile (p := (· != '\r')) (w := rest) (by rw [ahead]; rfl)
      rw [List.cons_append, List.head?_cons, CharSet.holds, contains_inLine, ends, Bool.false_and]
  have short := Nat.le_trans (List.takeWhile_sublist (· != '\r')).length_le long
  have parts : rest ++ aheadLine below =
      rest.takeWhile (· != '\r') ++ (rest.dropWhile (· != '\r') ++ aheadLine below) := by
    rw [← List.append_assoc, List.takeWhile_append_dropWhile]
  rw [run_group, parts]
  exact run_manyOf inside stop (fun _ _ _ none => absurd none (succeeds _)) short

/-- Before it, the greedy gap takes all spaces and tabs. -/
theorem run_gap {α : Type} (behind : List Char) (below : List (List Char))
    (k : Progress → Option α) (succeeds : ∀ now, k now ≠ none)
    (gapped : rest.head?.any isGap = true) (feed : '\n' ∉ rest) (long : rest.length ≤ limit) :
    run limit (.seq (.someOf gap) (.group argumentGroup (.manyOf inLine)))
        ⟨.between behind (rest ++ aheadLine below), []⟩ k =
      let front := (rest.takeWhile isGap).reverse ++ behind
      let argument := (rest.dropWhile isGap).takeWhile (· != '\r')
      let back := (rest.dropWhile isGap).dropWhile (· != '\r') ++ aheadLine below
      k ⟨.between (argument.reverse ++ front) back,
        [(argumentGroup, .covering front argument back)]⟩ := by
  have stretched := stretch gap (by decide) rest below
  rw [contains_gap] at stretched
  obtain ⟨parts, chars, stop, short⟩ := stretched
  have feed' : '\n' ∉ rest.dropWhile isGap := fun mem =>
    feed ((List.dropWhile_suffix isGap).mem mem)
  have long' := Nat.le_trans (List.dropWhile_suffix isGap).length_le long
  have argued := fun behind => run_argument behind below k succeeds feed' long'
  obtain ⟨c, w, gaps⟩ := exists_gap gapped
  rw [gaps] at parts chars short ⊢
  rw [List.length_cons] at short
  rw [run_seq, parts]
  refine (run_someOf chars stop ?_ (by omega)).trans (argued _)
  intro u x _ fails
  rw [argued] at fails
  exact absurd fails (succeeds _)

/-- A line with the directive and a gap behind it matches, up to the end of the argument. -/
theorem matchAt?_include {grammar : Grammar}
    (reads : line = grammar.includeDirective.toList ++ rest) (gapped : rest.head?.any isGap = true)
    (feed : '\n' ∉ line) (long : line.length ≤ limit) :
    ∃ front argument back, front ≠ [] ∧ line = front ++ (argument ++ back) ∧
      trim argument = trim (rest.takeWhile (· != '\r')) ∧
      matchAt? grammar.includePattern limit (lineAt above line below) =
        some (includeFound above line front argument back below) := by
  subst reads
  have feed' : '\n' ∉ rest := fun mem => feed (List.mem_append_right _ mem)
  have long' : rest.length ≤ limit := Nat.le_trans (List.suffix_append _ rest).length_le long
  obtain ⟨c, w, gaps⟩ := exists_gap gapped
  have begins : rest.takeWhile isGap ≠ [] := by
    rw [gaps]
    exact List.cons_ne_nil c w
  refine ⟨grammar.includeDirective.toList ++ rest.takeWhile isGap,
    (rest.dropWhile isGap).takeWhile (· != '\r'), (rest.dropWhile isGap).dropWhile (· != '\r'),
    List.append_ne_nil_of_right_ne_nil _ begins, ?_, trim_takeWhile_dropWhile_isGap rest, ?_⟩
  · rw [List.takeWhile_append_dropWhile, List.append_assoc, List.takeWhile_append_dropWhile]
  · have place : lineAt above (grammar.includeDirective.toList ++ rest) below =
        .between (behindLine above)
          (grammar.includeDirective.toList ++ (rest ++ aheadLine below)) := by
      rw [lineAt, List.append_assoc]
    have read := fun start : Cursor => run_gap
      (grammar.includeDirective.toList.reverse ++ behindLine above) below
      (fun reached => some (⟨⟨start, reached.here⟩, reached.groups⟩ : Found))
      (fun _ => Option.some_ne_none _) gapped feed' long'
    rw [includePattern_eq, matchAt?_lineStart, matchAt?, run_seq, place, run_literal_append, read]
    simp [includeFound, place]

/-! ## Line by line -/

theorem includeArgument?_of_reads {directive : List Char} (reads : line = directive ++ rest)
    (gapped : rest.head?.any isGap = true) :
    includeArgument? directive line =
      let argument := trim (rest.takeWhile (· != '\r'))
      if argument = [] then none else some argument := by
  subst reads
  unfold includeArgument?
  rw [List.drop_left]
  by_cases blank : trim (rest.takeWhile (· != '\r')) = [] <;>
    simp [blank, gapped]

theorem includeArgument?_none {directive : List Char}
    (misses : ∀ rest, line = directive ++ rest → rest.head?.any isGap = false) :
    includeArgument? directive line = none := by
  unfold includeArgument?
  rw [if_neg]
  rintro ⟨⟨rest, rfl⟩, gapped, -⟩
  rw [List.drop_left, misses rest rfl] at gapped
  cases gapped

/-- A directive goes on its line further than to the start of it. -/
theorem faces_afterInclude {front argument back : List Char}
    (split : line = front ++ (argument ++ back)) (inside : front ≠ []) (feed : '\n' ∉ line)
    (above below : List (List Char)) :
    Faces (includeFound above line front argument back below).whole.stop grammar.includePattern
      (line :: above) below := by
  have parts : line = (front ++ argument) ++ back := by rw [split, List.append_assoc]
  have taken : (includeFound above line front argument back below).whole.stop =
      .between ((front ++ argument).reverse ++ behindLine above) (back ++ aheadLine below) := by
    rw [includeFound, List.reverse_append, List.append_assoc]
  rw [taken, parts]
  exact faces_inLine (List.append_ne_nil_of_left_ne_nil inside argument) (parts ▸ feed) above below

theorem includesFrom_of_find? {pattern : Pattern} {place : Cursor} {found : Found} {span : Span}
    (first : pattern.find? place = some found) (group : found.group? argumentGroup = some span)
    (onward : found.whole.stop.ahead.length < place.ahead.length) :
    includesFrom pattern place =
      let argument := trim span.chars
      let entry? := if argument = [] then none
        else some (found.whole.start.offset, String.ofList argument)
      entry?.toList ++ includesFrom pattern found.whole.stop := by
  rw [includesFrom, first]
  dsimp only
  rw [group, if_pos onward]
  dsimp only
  by_cases blank : trim span.chars = []
  · rw [if_pos blank, if_pos (List.isEmpty_iff.2 blank)]
    rfl
  · rw [if_neg blank, if_neg (mt List.isEmpty_iff.1 blank)]
    rfl

/-- Line by line, the search finds the include directives: a match is read off its line and leads
into it, so that the search goes on with the line below. -/
theorem includesFrom_eq (single : '\n' ∉ grammar.includeDirective.toList)
    (todo above : List (List Char)) (place : Cursor)
    (h : Faces place grammar.includePattern above todo) (feeds : ∀ line ∈ todo, '\n' ∉ line) :
    includesFrom grammar.includePattern place =
      includeLines grammar.includeDirective.toList (lineOffset above) todo := by
  induction todo generalizing above place with
  | nil =>
    rw [includesFrom, h.find_eq]
    rfl
  | cons line below ih =>
    have feed := feeds line List.mem_cons_self
    have feeds' : ∀ l ∈ below, '\n' ∉ l := fun l mem => feeds l (List.mem_cons_of_mem line mem)
    have next : lineOffset (line :: above) = lineOffset above + width line + 1 := by
      rw [lineOffset_cons]
      omega
    rw [includeLines, ← next]
    by_cases reads : ∃ rest, line = grammar.includeDirective.toList ++ rest ∧
        rest.head?.any isGap = true
    · obtain ⟨rest, reads, gapped⟩ := reads
      have short := h.short _ below rfl
      rw [List.length_append] at short
      obtain ⟨front, argument, back, inside, split, trimmed, matched⟩ :=
        @matchAt?_include (place.ahead.length + 1) above below _ _ _ reads gapped feed (by omega)
      have first := h.find_eq.trans (findFrom?_of_some matched _)
      have group := group?_argument above line front argument back below
      have onward : (includeFound above line front argument back below).whole.stop.ahead.length <
          place.ahead.length := by
        have wide := List.length_pos_iff.2 inside
        rw [split] at short
        simp only [List.length_append] at short
        rw [includeFound, Cursor.ahead_between, List.length_append]
        omega
      have start : (includeFound above line front argument back below).whole.start.offset =
          lineOffset above := width_behindLine above
      rw [includesFrom_of_find? first group onward, start, Span.chars_covering, trimmed,
        includeArgument?_of_reads reads gapped,
        ih (line :: above) _ (faces_afterInclude split inside feed above below) feeds']
      by_cases blank : trim (rest.takeWhile (· != '\r')) = [] <;> simp [blank]
    · have misses : ∀ rest, line = grammar.includeDirective.toList ++ rest →
          rest.head?.any isGap = false := by
        intro rest split
        rw [← Bool.not_eq_true]
        exact fun gapped => reads ⟨rest, split, gapped⟩
      have skipped := h.skip feed fun _ => matchAt?_include_none single misses
      rw [includeArgument?_none misses]
      exact ih (line :: above) place skipped feeds'

theorem includes_eq_includeLines (single : '\n' ∉ grammar.includeDirective.toList) (text : String) :
    grammar.includes text =
      includeLines grammar.includeDirective.toList 0 (split '\n' text.toList) :=
  includesFrom_eq single _ [] _ (faces_start _ text.toList) fun _ mem => not_mem_of_mem_split mem

theorem offset_of_mem_includeLines {directive : List Char} {todo above : List (List Char)}
    {entry : Nat × String} (mem : entry ∈ includeLines directive (lineOffset above) todo) :
    ∃ above' line below, above.reverse ++ todo = above'.reverse ++ line :: below ∧
      entry.1 = lineOffset above' := by
  induction todo generalizing above with
  | nil => cases mem
  | cons line below ih =>
    have next : lineOffset above + width line + 1 = lineOffset (line :: above) := by
      rw [lineOffset_cons]
      omega
    rw [includeLines, next, List.mem_append] at mem
    rcases mem with here | later
    · refine ⟨above, line, below, rfl, ?_⟩
      rw [Option.mem_toList, Option.map_eq_some_iff] at here
      obtain ⟨argument, -, rfl⟩ := here
      rfl
    · obtain ⟨above', line', below', lines, offset⟩ := ih later
      exact ⟨above', line', below', by simpa using lines, offset⟩

end Grammar

/-- Over every text, a grammar finds the include directives that stand on its lines, whatever
characters its directive is made of. The edges of a file are those of its text, one for one, so they
stand on different lines, one below the other, and each at the start of its line. -/
theorem includes_follow_lines (grammar : Grammar)
    (single : '\n' ∉ grammar.includeDirective.toList) :
    (∀ text : String, grammar.includes text =
      includeLines grammar.includeDirective.toList 0 (split '\n' text.toList)) ∧
    ∀ document : Document,
      let file : TargetFile := ⟨document, grammar⟩
      file.edges.map (fun edge => (edge.offset, edge.argument)) = grammar.includes document.text ∧
      (file.edges.Pairwise fun a b =>
        (document.lineAt a.offset).number < (document.lineAt b.offset).number) ∧
      ∀ edge ∈ file.edges, (document.lineAt edge.offset).start = edge.offset := by
  refine ⟨Grammar.includes_eq_includeLines single, fun document => ⟨?_, ?_, fun edge mem => ?_⟩⟩
  · rw [TargetFile.edges, List.map_map]
    exact List.map_id _
  · have ascending := TargetFile.edges_lines ⟨document, grammar⟩
    simpa only [Document.number_lineAt] using ascending
  · rw [TargetFile.edges, List.mem_map] at mem
    obtain ⟨entry, listed, rfl⟩ := mem
    rw [Grammar.includes_eq_includeLines single] at listed
    obtain ⟨above, line, below, lines, offset⟩ :=
      @Grammar.offset_of_mem_includeLines _ _ [] _ listed
    dsimp only
    rw [offset]
    exact Document.start_lineAt lines

/-- A directive of special characters with a carriage return among them; on the lines below it a
blank follows that is no gap, the argument is blank, and the directive is not at the start. -/
theorem includes_odd_directive :
    ∃ grammar, (Grammar.new "make" "+(\r." "(?P<comment>#)(?P<target>x)" false).toOption =
        some grammar ∧
      '\n' ∉ grammar.includeDirective.toList ∧
      grammar.includes "+(\r.\té/b \rrest\n+(\r.\u00a0x\n+(\r. \u00a0\r\n +(\r. d\n+(\r.  c" =
        [(0, "é/b"), (41, "c")] := by
  refine ⟨⟨"make", "+(\r.", .seq (.group "comment" (.char '#')) (.group "target" (.char 'x')),
    false⟩, by decide +kernel, by decide, ?_⟩
  exact ((includes_follow_lines _ (by decide)).1 _).trans (by decide)

end BuildTargets
