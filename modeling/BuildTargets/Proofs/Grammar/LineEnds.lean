import BuildTargets.Proofs.Grammar.IncludeScan
import BuildTargets.Proofs.Grammar.TargetLines
import BuildTargets.Proofs.Path.Components

/-!
# Line ends

Whether the lines of a build file end in line feeds alone or in carriage returns and line feeds does
not change what is read from it. The rules for headers, comments and include directives look at a
line as if the carriage return at its end were not there, so two texts with the same lines declare
the same targets on them. Only the offsets differ, and with them where a line starts; what a reader
of the file sees of a target is its `Target.shown`, which speaks of lines by their numbers.
-/

namespace BuildTargets

open Text

/-! ## Lines without the return at their end -/

/-- A carriage return stands at the end of the line, if anywhere. -/
def Clear (line : List Char) : Prop := '\r' ∉ dropReturn line

variable {line : List Char} {above below : List (List Char)}

theorem Clear.dropReturn_dropReturn (h : Clear line) :
    dropReturn (dropReturn line) = dropReturn line :=
  dropReturn_of_not_mem h

/-- The first character of a line stays, unless it is the return at the end. -/
theorem dropReturn_cons_cases (c : Char) (rest : List Char) :
    c :: rest = ['\r'] ∨ dropReturn (c :: rest) = c :: dropReturn rest := by
  by_cases empty : rest = []
  · by_cases same : c = '\r'
    · exact .inl (by rw [same, empty])
    · exact .inr (HeaderRule.dropReturn_cons same rest)
  · exact .inr (dropReturn_append [c] empty)

section

variable {p : Char → Bool} (stops : p '\r' = false)

include stops

theorem takeWhile_dropReturn (line : List Char) :
    (dropReturn line).takeWhile p = line.takeWhile p := by
  induction line with
  | nil => rfl
  | cons c rest ih =>
    rcases dropReturn_cons_cases c rest with alone | stays
    · rw [alone, List.takeWhile_cons_of_neg (Bool.eq_false_iff.1 stops)]
      rfl
    · rw [stays, List.takeWhile_cons, List.takeWhile_cons, ih]

theorem dropWhile_dropReturn (line : List Char) :
    (dropReturn line).dropWhile p = dropReturn (line.dropWhile p) := by
  induction line with
  | nil => rfl
  | cons c rest ih =>
    rcases dropReturn_cons_cases c rest with alone | stays
    · rw [alone, List.dropWhile_cons_of_neg (Bool.eq_false_iff.1 stops)]
      rfl
    · rw [stays, List.dropWhile_cons, List.dropWhile_cons, ih, apply_ite dropReturn, stays]

theorem any_head?_dropReturn (line : List Char) :
    (dropReturn line).head?.any p = line.head?.any p := by
  cases line with
  | nil => rfl
  | cons c rest =>
    rcases dropReturn_cons_cases c rest with alone | stays
    · rw [alone]
      exact stops.symm
    · rw [stays]
      rfl

end

theorem prefix_dropReturn_iff {w : List Char} (clear : '\r' ∉ w) :
    w <+: dropReturn line ↔ w <+: line := by
  refine ⟨fun h => ?_, HeaderRule.prefix_dropReturn clear⟩
  obtain ⟨ending, split, -⟩ := line_eq_dropReturn_append line
  exact h.trans ⟨ending, split.symm⟩

/-! ## Comments -/

theorem Clear.goesOn_dropReturn (h : Clear line) : goesOn (dropReturn line) = goesOn line := by
  rw [goesOn, goesOn, h.dropReturn_dropReturn]

theorem isContinued_map (clear : ∀ l ∈ above, Clear l) :
    isContinued (above.map dropReturn) = isContinued above := by
  cases above with
  | nil => rfl
  | cons line above => exact (clear line List.mem_cons_self).goesOn_dropReturn

theorem commentText?_of_ne {c : Char} (other : c ≠ '#') (rest : List Char) :
    commentText? (c :: rest) = none := by
  unfold commentText?
  split
  · next same => exact absurd (List.cons.inj same).1 other
  · rfl

theorem Clear.commentText?_dropReturn (h : Clear line) :
    commentText? (dropReturn line) = commentText? line := by
  cases line with
  | nil => rfl
  | cons c text =>
    rcases dropReturn_cons_cases c text with alone | stays
    · rw [alone]
      rfl
    · by_cases note : c = '#'
      · have clear : Clear text := fun mem => h (stays ▸ List.mem_cons_of_mem c mem)
        rw [stays, note, commentText?, commentText?, clear.dropReturn_dropReturn]
      · rw [stays, commentText?_of_ne note, commentText?_of_ne note]

theorem commentAbove?_map (clear : ∀ l ∈ above, Clear l) :
    commentAbove? (above.map dropReturn) = commentAbove? above := by
  cases above with
  | nil => rfl
  | cons line above =>
    rw [List.map_cons, commentAbove?, commentAbove?,
      isContinued_map fun l mem => clear l (List.mem_cons_of_mem line mem),
      (clear line List.mem_cons_self).commentText?_dropReturn]

/-! ## Headers -/

namespace HeaderRule

variable {rule : HeaderRule}

/-- What a rule passes over does not depend on the return at the end of a line. -/
def KeepsEnds (rule : HeaderRule) : Prop :=
  ∀ rest, rule.pass (dropReturn rest) = dropReturn (rule.pass rest)

theorem keepsEnds_make : makeRule.KeepsEnds := dropWhile_dropReturn (by decide)

theorem keepsEnds_just : justRule.KeepsEnds := by
  intro rest
  show (if (dropReturn rest).head?.any isGap then _ else _) = dropReturn (if _ then _ else _)
  rw [any_head?_dropReturn (by decide), dropWhile_dropReturn (by decide), apply_ite dropReturn]

theorem unmarked_cons_of_ne (rule : HeaderRule) {c : Char} (other : c ≠ '@') (rest : List Char) :
    rule.unmarked (c :: rest) = c :: rest := by
  unfold unmarked
  split
  · next same => exact absurd (List.cons.inj same).1 other
  · rfl

theorem unmarked_dropReturn (rule : HeaderRule) (line : List Char) :
    rule.unmarked (dropReturn line) = dropReturn (rule.unmarked line) := by
  cases line with
  | nil => rfl
  | cons c rest =>
    rcases dropReturn_cons_cases c rest with alone | stays
    · rw [alone]
      rfl
    · by_cases mark : c = '@'
      · rw [stays, mark, unmarked, unmarked, apply_ite dropReturn, ← mark, stays]
      · rw [stays, unmarked_cons_of_ne rule mark, unmarked_cons_of_ne rule mark, stays]

/-- A line without its return declares the same name, with what follows the colon without it. -/
theorem KeepsEnds.parts?_dropReturn (keeps : rule.KeepsEnds) (line : List Char) :
    rule.parts? (dropReturn line) =
      (rule.parts? line).map fun parts => (parts.1, dropReturn parts.2) := by
  unfold parts?
  rw [unmarked_dropReturn]
  dsimp only
  rw [takeWhile_dropReturn (by decide), dropWhile_dropReturn (by decide), keeps]
  cases rule.pass ((rule.unmarked line).dropWhile isNameChar) with
  | nil => rfl
  | cons c body =>
    rcases dropReturn_cons_cases c body with alone | stays
    · rw [alone]
      rfl
    · rw [stays]
      by_cases colon : c = ':'
      · subst colon
        by_cases unnamed : (rule.unmarked line).takeWhile isNameChar = []
        · simp only [unnamed, if_true, Option.map_none]
        · simp only [unnamed, if_false, Option.map_some]
      · split
        · next same => exact absurd (List.cons.inj same).1 colon
        · split
          · next same => exact absurd (List.cons.inj same).1 colon
          · rfl

/-- Without the returns at the ends of the lines a line has the same header, but for its offsets. -/
theorem KeepsEnds.header?_map (keeps : rule.KeepsEnds) (clear : ∀ l ∈ above, Clear l)
    (line : List Char) :
    rule.header? (above.map dropReturn) (dropReturn line) =
      (rule.header? above line).map fun header => { header with
        offset := earliest (above.map dropReturn)
        headerOffset := lineOffset (above.map dropReturn) } := by
  unfold header? earliest
  rw [keeps.parts?_dropReturn, isContinued_map clear, commentAbove?_map clear]
  cases rule.parts? line with
  | none => rfl
  | some parts =>
    obtain ⟨name, body⟩ := parts
    rw [Option.map_some]
    have assigned : ['='] <+: dropReturn body ∨ [':', '='] <+: dropReturn body ↔
        ['='] <+: body ∨ [':', '='] <+: body :=
      or_congr (prefix_dropReturn_iff (by decide)) (prefix_dropReturn_iff (by decide))
    dsimp only
    rw [if_congr (by rw [← or_assoc, assigned, or_assoc]) rfl rfl]
    split
    · rfl
    · cases commentAbove? above <;> rfl

end HeaderRule

/-! ## Include directives -/

/-- The argument of an include directive does not depend on the return at the end of its line. -/
theorem includeArgument?_dropReturn {directive : List Char} (clear : '\r' ∉ directive)
    (line : List Char) :
    includeArgument? directive (dropReturn line) = includeArgument? directive line := by
  have begins : directive <+: dropReturn line ↔ directive <+: line := prefix_dropReturn_iff clear
  by_cases reads : directive <+: line
  · obtain ⟨rest, rfl⟩ := reads
    have front : dropReturn (directive ++ rest) = directive ++ dropReturn rest := by
      by_cases empty : rest = []
      · rw [empty, List.append_nil, dropReturn_of_not_mem clear]
        exact (List.append_nil directive).symm
      · exact dropReturn_append directive empty
    have argument := @takeWhile_dropReturn (· != '\r') rfl rest
    unfold includeArgument?
    simp only [front, List.drop_left, List.prefix_append, true_and, argument,
      any_head?_dropReturn (by decide : isGap '\r' = false)]
  · unfold includeArgument?
    rw [if_neg fun h => reads (begins.1 h.1), if_neg fun h => reads h.1]

/-! ## What is shown of targets -/

/-- What a reader sees of a line: its number and its text. -/
def Line.shown (line : Line) : Nat × String := (line.number, line.text)

/-- What a reader sees of a target: name and comment, and the lines that it stands on. -/
structure Target.Shown where
  name : String
  comment : String
  headerLine : Nat × String
  commentLine? : Option (Nat × String)
deriving DecidableEq, Repr

def Target.shown (target : Target) : Shown :=
  ⟨target.name, target.comment, target.headerLine.shown, target.commentLine?.map Line.shown⟩

namespace HeaderRule

def lineShown (above : List (List Char)) (line : List Char) : Nat × String :=
  (above.length, String.ofList (dropReturn line))

/-- What is shown of a target whose header line has these lines above it. -/
def targetShown (name : String) (above : List (List Char)) (line : List Char) : Target.Shown :=
  ⟨name, commentOn above, lineShown above line,
    (commentAbove? above).bind fun _ => above.head?.map (lineShown above.tail)⟩

theorem shown_lineAt {document : Document}
    (lines : split '\n' document.chars = above.reverse ++ line :: below) :
    (document.lineAt (lineOffset above)).shown = lineShown above line := by
  rw [Document.lineAt_lineOffset lines]
  rfl

theorem lineShown_map (h : Clear line) (above : List (List Char)) :
    lineShown (above.map dropReturn) (dropReturn line) = lineShown above line := by
  rw [lineShown, lineShown, List.length_map, h.dropReturn_dropReturn]

theorem commentOn_map (clear : ∀ l ∈ above, Clear l) :
    commentOn (above.map dropReturn) = commentOn above := by
  rw [commentOn, commentOn, commentAbove?_map clear]

theorem targetShown_map (clear : ∀ l ∈ above, Clear l) (h : Clear line) (name : String) :
    targetShown name (above.map dropReturn) (dropReturn line) = targetShown name above line := by
  have noted : ((above.map dropReturn).head?.map (lineShown (above.map dropReturn).tail)) =
      above.head?.map (lineShown above.tail) := by
    cases above with
    | nil => rfl
    | cons note above => exact congrArg some (lineShown_map (clear note List.mem_cons_self) above)
  rw [targetShown, targetShown, commentOn_map clear, commentAbove?_map clear, lineShown_map h,
    noted]

variable {document : Document} {grammar : Grammar}

theorem shown_eq (lines : split '\n' document.chars = above.reverse ++ line :: below)
    (name : String) :
    Target.shown ⟨document, grammar, ⟨name, commentOn above, earliest above, lineOffset above⟩⟩ =
      targetShown name above line := by
  rw [Target.shown, commentLine?_eq name lines, targetShown, ← shown_lineAt lines]
  cases commentAbove? above with
  | none => rfl
  | some words => cases above <;> rfl

end HeaderRule

/-! ## Documents with the same lines -/

/-- The lines of the two documents are the same but for carriage returns at the ends of those of
the second. -/
structure Document.SameLines (document returned : Document) : Prop where
  lines : split '\n' document.chars = (split '\n' returned.chars).map dropReturn
  clear : ∀ line ∈ split '\n' returned.chars, Clear line

namespace Document.SameLines

variable {document returned : Document} {rule : HeaderRule}

theorem split_line (same : document.SameLines returned)
    (lines : split '\n' returned.chars = above.reverse ++ line :: below) :
    split '\n' document.chars =
      (above.map dropReturn).reverse ++ dropReturn line :: below.map dropReturn := by
  rw [same.lines, lines, List.map_append, List.map_reverse, List.map_cons]

theorem clear_above (same : document.SameLines returned)
    (lines : split '\n' returned.chars = above.reverse ++ line :: below) :
    (∀ l ∈ above, Clear l) ∧ Clear line := by
  have each := same.clear
  rw [lines] at each
  exact ⟨fun l mem => each l (by simp [mem]), each line (by simp)⟩

theorem shown_headersBelow (same : document.SameLines returned) (keeps : rule.KeepsEnds)
    (grammar : Grammar) {above todo : List (List Char)}
    (lines : split '\n' returned.chars = above.reverse ++ todo) :
    (rule.headersBelow (above.map dropReturn) (todo.map dropReturn)).map
        (fun header => Target.shown ⟨document, grammar, header⟩) =
      (rule.headersBelow above todo).map fun header =>
        Target.shown ⟨returned, grammar, header⟩ := by
  induction todo generalizing above with
  | nil => rfl
  | cons line below ih =>
    obtain ⟨clear, ended⟩ := same.clear_above lines
    have later := @ih (line :: above) (by rw [lines]; simp)
    rw [List.map_cons] at later
    rw [List.map_cons, HeaderRule.headersBelow, HeaderRule.headersBelow, List.map_append,
      List.map_append, later, keeps.header?_map clear]
    cases found : rule.header? above line with
    | none => rfl
    | some header =>
      obtain ⟨name, body, -, rfl⟩ := HeaderRule.header?_eq_some found
      have shown := @HeaderRule.shown_eq line above below returned grammar lines
      have shown' := @HeaderRule.shown_eq _ _ _ document grammar (same.split_line lines)
      rw [HeaderRule.commentOn_map clear] at shown'
      simp only [Option.map_some, Option.toList_some, List.map_cons, List.map_nil, shown, shown',
        HeaderRule.targetShown_map clear ended]

theorem shown_includeLines (same : document.SameLines returned) {directive : List Char}
    (clear : '\r' ∉ directive) {above todo : List (List Char)}
    (lines : split '\n' returned.chars = above.reverse ++ todo) :
    (includeLines directive (lineOffset (above.map dropReturn)) (todo.map dropReturn)).map
        (fun entry => ((document.lineAt entry.1).shown, entry.2)) =
      (includeLines directive (lineOffset above) todo).map fun entry =>
        ((returned.lineAt entry.1).shown, entry.2) := by
  induction todo generalizing above with
  | nil => rfl
  | cons line below ih =>
    obtain ⟨-, ended⟩ := same.clear_above lines
    have later := @ih (line :: above) (by rw [lines]; simp)
    have next : ∀ (line : List Char) (above : List (List Char)),
        lineOffset above + width line + 1 = lineOffset (line :: above) := by
      intro line above
      rw [lineOffset_cons]
      omega
    have here := HeaderRule.shown_lineAt lines
    have here' := HeaderRule.shown_lineAt (same.split_line lines)
    rw [HeaderRule.lineShown_map ended] at here'
    rw [List.map_cons] at later
    rw [List.map_cons, includeLines, includeLines, next, next, List.map_append, List.map_append,
      later, includeArgument?_dropReturn clear]
    cases includeArgument? directive line with
    | none => rfl
    | some argument =>
      simp only [Option.map_some, Option.toList_some, List.map_cons, List.map_nil, here, here']

end Document.SameLines

/-! ## Files with the same lines -/

/-- What a reader sees of an include directive: its line and its argument. -/
def TargetFile.edgeShown (file : TargetFile) (edge : IncludeEdge) : (Nat × String) × String :=
  ((file.document.lineAt edge.offset).shown, edge.argument)

/-- What a reader sees of the line of an inline runner, with the target that it runs. -/
def InlineAnchor.shown (anchor : InlineAnchor) : (Nat × String) × Target.Shown :=
  (anchor.line.shown, anchor.target.shown)

theorem Target.shown_anchorLine (target : Target) (placement : Placement) :
    (target.anchorLine placement).shown = match placement with
      | .target => target.shown.headerLine
      | .comment => target.shown.commentLine?.getD target.shown.headerLine := by
  cases placement with
  | target => rfl
  | comment =>
    unfold anchorLine shown
    dsimp only
    cases target.commentLine? <;> rfl

/-- What is shown of the targets of a file says what is shown of the target on a line. -/
theorem TargetFile.shown_targetAtLine? (file : TargetFile) (number : Nat) :
    (file.targetAtLine? number).map Target.shown =
      (file.targets.map Target.shown).find? fun shown => shown.headerLine.1 == number := by
  rw [targetAtLine?, List.find?_map]
  rfl

theorem TargetFile.shown_inlineAnchors (file : TargetFile) (placement : Placement) :
    (file.inlineAnchors placement).map InlineAnchor.shown =
      (file.targets.map Target.shown).map fun shown =>
        (match placement with
          | .target => shown.headerLine
          | .comment => shown.commentLine?.getD shown.headerLine, shown) := by
  rw [inlineAnchors, List.map_map, List.map_map]
  exact List.map_congr_left fun target _ =>
    congrArg (·, target.shown) (target.shown_anchorLine placement)

/-- The rule that a built-in grammar reads headers by does not see returns at the ends of lines. -/
theorem Grammar.exists_keepsEnds {grammar : Grammar} (builtin : grammar = .make ∨ grammar = .just) :
    ∃ rule : HeaderRule, rule.KeepsEnds ∧
      ∀ text, grammar.headers text = rule.headersBelow [] (split '\n' text.toList) := by
  rcases builtin with rfl | rfl
  · refine ⟨makeRule, HeaderRule.keepsEnds_make, fun text => ?_⟩
    rw [headers_eq make_header reads_make, HeaderRule.headers_eq_below]
  · refine ⟨justRule, HeaderRule.keepsEnds_just, fun text => ?_⟩
    rw [headers_eq just_header reads_just, HeaderRule.headers_eq_below]

namespace Document.SameLines

variable {document returned : Document} {grammar : Grammar}

theorem shown_targets (same : document.SameLines returned)
    (builtin : grammar = .make ∨ grammar = .just) :
    (TargetFile.mk document grammar).targets.map Target.shown =
      (TargetFile.mk returned grammar).targets.map Target.shown := by
  obtain ⟨rule, keeps, headers⟩ := Grammar.exists_keepsEnds builtin
  rw [TargetFile.targets, TargetFile.targets, List.map_map, List.map_map, headers, headers]
  have shown := same.shown_headersBelow keeps grammar (rfl : _ = [].reverse ++ _)
  rw [← same.lines] at shown
  exact shown

theorem shown_edges (same : document.SameLines returned)
    (single : '\n' ∉ grammar.includeDirective.toList)
    (clear : '\r' ∉ grammar.includeDirective.toList) :
    let file : TargetFile := ⟨document, grammar⟩
    let file' : TargetFile := ⟨returned, grammar⟩
    file.edges.map file.edgeShown = file'.edges.map file'.edgeShown := by
  have shown := same.shown_includeLines clear (rfl : _ = [].reverse ++ _)
  rw [← same.lines] at shown
  dsimp only
  rw [TargetFile.edges, TargetFile.edges, List.map_map, List.map_map,
    Grammar.includes_eq_includeLines single, Grammar.includes_eq_includeLines single]
  exact shown

end Document.SameLines

/-! ## Carriage returns before all line feeds -/

def withReturns (text : List Char) : List Char :=
  text.flatMap fun c => if c = '\n' then ['\r', '\n'] else [c]

def Document.withReturns (document : Document) : Document :=
  ⟨document.path, String.ofList (BuildTargets.withReturns document.chars)⟩

theorem split_withReturns {text : List Char} (plain : '\r' ∉ text) :
    (split '\n' (withReturns text)).map dropReturn = split '\n' text := by
  induction text with
  | nil => rfl
  | cons c text ih =>
    have later := ih fun mem => plain (List.mem_cons_of_mem c mem)
    by_cases feed : c = '\n'
    · have ends : withReturns (c :: text) = ['\r'] ++ '\n' :: withReturns text := by
        rw [feed]
        rfl
      have begins : split '\n' (c :: text) = [] :: split '\n' text := by rw [split, if_pos feed]
      rw [ends, split_append, List.map_append, later, begins]
      rfl
    · have stays : withReturns (c :: text) = c :: withReturns text := by
        rw [withReturns, List.flatMap_cons, if_neg feed]
        rfl
      have other : c ≠ '\r' := fun same => plain (same ▸ List.mem_cons_self)
      obtain ⟨line, below, lines⟩ :=
        List.exists_cons_of_ne_nil (split_ne_nil '\n' (withReturns text))
      rw [lines, List.map_cons] at later
      rw [stays, split, if_neg feed, split, if_neg feed, lines, ← later]
      dsimp only
      rw [List.map_cons, HeaderRule.dropReturn_cons other]

theorem mem_of_mem_split {text line : List Char} {c : Char} (h : line ∈ split '\n' text)
    (mem : c ∈ line) : c ∈ text := by
  obtain ⟨above, below, lines⟩ := List.append_of_mem h
  rw [← joinWith_split '\n' text, lines, ← List.reverse_reverse above, joinWith_above]
  exact List.mem_append_right _ (List.mem_append_left _ mem)

theorem Document.sameLines_withReturns {document : Document} (plain : '\r' ∉ document.chars) :
    document.SameLines document.withReturns := by
  have chars : document.withReturns.chars = BuildTargets.withReturns document.chars :=
    String.toList_ofList
  have lines := split_withReturns plain
  refine ⟨?_, fun line mem inside => ?_⟩
  · rw [chars, lines]
  · rw [chars] at mem
    have listed : dropReturn line ∈ split '\n' document.chars :=
      lines ▸ List.mem_map_of_mem mem
    exact plain (mem_of_mem_split listed inside)

/-- **Line ends do not matter.** Take a text without carriage returns, read as a makefile or as a
justfile, and put a carriage return before each of its line feeds. Then the same targets are
declared, one by one, with the same names and comments, on lines of the same numbers and texts, with
comment lines above the same ones; the same files are included from the same lines; each line has
the same target; and inline runners stand on the same lines, wherever they are placed. -/
theorem line_ends_do_not_matter (document : Document) (grammar : Grammar)
    (builtin : grammar = .make ∨ grammar = .just) (plain : '\r' ∉ document.chars) :
    let file : TargetFile := ⟨document, grammar⟩
    let returned : TargetFile := ⟨document.withReturns, grammar⟩
    returned.targets.map Target.shown = file.targets.map Target.shown ∧
    returned.edges.map returned.edgeShown = file.edges.map file.edgeShown ∧
    (∀ number, (returned.targetAtLine? number).map Target.shown =
      (file.targetAtLine? number).map Target.shown) ∧
    ∀ placement, (returned.inlineAnchors placement).map InlineAnchor.shown =
      (file.inlineAnchors placement).map InlineAnchor.shown := by
  intro file returned
  have same := Document.sameLines_withReturns plain
  have targets := same.shown_targets builtin
  have directive : '\n' ∉ grammar.includeDirective.toList ∧
      '\r' ∉ grammar.includeDirective.toList := by
    rcases builtin with rfl | rfl <;> decide
  refine ⟨targets.symm, (same.shown_edges directive.1 directive.2).symm, fun number => ?_,
    fun placement => ?_⟩
  · rw [TargetFile.shown_targetAtLine?, TargetFile.shown_targetAtLine?, targets]
  · rw [TargetFile.shown_inlineAnchors, TargetFile.shown_inlineAnchors, targets]

/-- A justfile with a comment over a quiet recipe, a comment line that the next one goes on, an
assignment, a blank include directive and no line feed at its end. -/
def mixedLines : Document :=
  ⟨⟨"justfile"⟩, "# run it\n@all x='1':\nv := 1\n# \\\n# lost\nc:\n!include \n!include sub/b"⟩

theorem mixed_lines_shown_alike :
    (Grammar.just = .make ∨ Grammar.just = .just) ∧ '\r' ∉ mixedLines.chars ∧
      (TargetFile.mk mixedLines.withReturns .just).targets.map Target.shown =
        [⟨"all", "run it", (1, "@all x='1':"), some (0, "# run it")⟩, ⟨"c", "", (5, "c:"), none⟩] ∧
      (TargetFile.mk mixedLines.withReturns .just).edges.map
          (TargetFile.mk mixedLines.withReturns .just).edgeShown =
        [((7, "!include sub/b"), "sub/b")] ∧
      ((TargetFile.mk mixedLines.withReturns .just).inlineAnchors .comment).map
          (fun anchor => anchor.line.number) = [0, 5] := by
  have plain : '\r' ∉ mixedLines.chars := by decide
  obtain ⟨targets, edges, -, anchors⟩ :=
    line_ends_do_not_matter mixedLines .just (.inr rfl) plain
  refine ⟨.inr rfl, plain, targets.trans (by decide +kernel), edges.trans (by decide +kernel), ?_⟩
  have numbers := congrArg (List.map fun shown => shown.1.1) (anchors .comment)
  rw [List.map_map, List.map_map] at numbers
  exact numbers.trans (by decide +kernel)

end BuildTargets
