import BuildTargets.Proofs.Document.Lines
import BuildTargets.Proofs.Grammar.Offsets

/-!
# Targets and their lines

The scan for headers counts bytes and the document counts lines; here the two come together. A
header line begins with the name of its target, the line above it holds the comment, if there is
one, and the header lines of a file lie one below the other. So a target can be asked for by its
line, and no two inline runners stand on one line.
-/

namespace BuildTargets

open Text

/-! ## Lines that headers are found on -/

namespace HeaderRule

theorem exists_line_of_mem {rule : HeaderRule} {above todo : List (List Char)} {header : Header}
    (mem : header ∈ rule.headersBelow above todo) :
    ∃ above' line below, above.reverse ++ todo = above'.reverse ++ line :: below ∧
      rule.header? above' line = some header := by
  induction todo generalizing above with
  | nil => cases mem
  | cons line below ih =>
    rw [headersBelow, List.mem_append] at mem
    rcases mem with here | later
    · exact ⟨above, line, below, rfl, Option.mem_toList.1 here⟩
    · obtain ⟨above', line', below', lines, found⟩ := ih later
      exact ⟨above', line', below', by simpa using lines, found⟩

theorem not_return_of_isNameChar {c : Char} (h : isNameChar c = true) : c ≠ '\r' := by
  rintro rfl
  exact absurd h (by decide)

/-- What has no carriage return begins a line, if it begins the line with its end. -/
theorem prefix_dropReturn {w line : List Char} (clear : '\r' ∉ w) (h : w <+: line) :
    w <+: dropReturn line := by
  obtain ⟨ending, split, ends⟩ := line_eq_dropReturn_append line
  rw [split] at h
  rcases List.prefix_or_prefix_of_prefix h (List.prefix_append (dropReturn line) ending) with
    short | ⟨more, rfl⟩
  · exact short
  · rw [List.prefix_append_right_inj] at h
    cases more with
    | nil => simp only [List.append_nil, List.prefix_rfl]
    | cons c more =>
      have last : c ∈ ending := h.mem List.mem_cons_self
      rcases ends with rfl | rfl
      · cases last
      · rw [List.mem_singleton.1 last] at clear
        exact absurd (List.mem_append_right _ List.mem_cons_self) clear

/-- A header line begins with the name, behind the mark that its rule may allow. -/
theorem name_prefix {rule : HeaderRule} {line name body : List Char}
    (found : rule.parts? line = some (name, body)) :
    name <+: dropReturn line ∨ rule.quiet = true ∧ '@' :: name <+: dropReturn line := by
  obtain ⟨-, rfl, -⟩ := parts?_eq_some_iff.1 found
  have clear : '\r' ∉ (rule.unmarked line).takeWhile isNameChar := fun mem =>
    not_return_of_isNameChar (List.all_eq_true.1 List.all_takeWhile _ mem) rfl
  have begins := List.takeWhile_prefix isNameChar (l := rule.unmarked line)
  generalize (rule.unmarked line).takeWhile isNameChar = name at clear begins
  unfold unmarked at begins
  split at begins
  · next line =>
    cases quiet : rule.quiet with
    | false =>
      rw [quiet] at begins
      exact .inl (prefix_dropReturn clear begins)
    | true =>
      rw [quiet] at begins
      refine .inr ⟨rfl, prefix_dropReturn ?_ (List.cons_prefix_cons.2 ⟨rfl, begins⟩)⟩
      simpa using clear
  · exact .inl (prefix_dropReturn clear begins)

theorem dropReturn_cons {c : Char} (plain : c ≠ '\r') (rest : List Char) :
    dropReturn (c :: rest) = c :: dropReturn rest := by
  by_cases empty : rest = []
  · rw [empty, dropReturn_of_not_mem (by simpa using plain.symm)]
    rfl
  · exact dropReturn_append [c] empty

/-- The line above some others, if it is the comment of a header below them. -/
theorem commentAbove?_eq_some {above : List (List Char)} {text : List Char}
    (h : commentAbove? above = some text) :
    ∃ note above', above = note :: above' ∧ earliest above = lineOffset above' ∧ ∃ rest,
      dropReturn note = '#' :: rest ∧ text = dropLastWhile isGap (rest.dropWhile isGap) := by
  cases above with
  | nil => cases h
  | cons note above' =>
    refine ⟨note, above', rfl, by rw [earliest, h]; rfl, ?_⟩
    rw [commentAbove?] at h
    split at h
    · cases h
    · unfold commentText? at h
      split at h
      · next rest =>
        split at h
        · cases h
        · cases h
          exact ⟨dropReturn rest, dropReturn_cons (by decide) rest, rfl⟩
      · cases h

end HeaderRule

/-! ## Targets -/

/-- How a target stands on the lines of its document: behind the mark that its grammar may allow,
the header line begins with the name; the comment, if there is one, is what the line above it holds
behind `#`. -/
structure Target.OnLines (target : Target) : Prop where
  headerLine : target.document.line? target.headerLine.number = some target.headerLine
  name : target.name.toList <+: target.headerLine.text.toList ∨
    target.grammar = .just ∧ '@' :: target.name.toList <+: target.headerLine.text.toList
  isSome_iff : target.commentLine?.isSome = true ↔ target.offset < target.header.headerOffset
  comment_none : target.commentLine? = none → target.comment = ""
  comment_some : ∀ line, target.commentLine? = some line →
    target.document.line? line.number = some line ∧
      line.number + 1 = target.headerLine.number ∧
      ∃ text, line.text.toList = '#' :: text ∧
        target.comment.toList = dropLastWhile isGap (text.dropWhile isGap)

theorem Target.isSome_commentLine? (target : Target) :
    target.commentLine?.isSome = true ↔ target.offset < target.header.headerOffset := by
  unfold commentLine?
  split
  · next before => exact iff_of_true rfl before
  · next other => exact iff_of_false Bool.false_ne_true other

section

open HeaderRule

variable {document : Document} {grammar : Grammar} {above below : List (List Char)}
  {line : List Char}

/-- The comment line of a target is the line above its header line, if that holds a comment. -/
theorem commentLine?_eq (name : String)
    (lines : split '\n' document.chars = above.reverse ++ line :: below) :
    Target.commentLine? ⟨document, grammar,
        ⟨name, commentOn above, earliest above, lineOffset above⟩⟩ =
      (commentAbove? above).bind fun _ => above.head?.map (Document.lineBelow above.tail) := by
  unfold Target.commentLine?
  dsimp only
  cases comment : commentAbove? above with
  | none =>
    have same : earliest above = lineOffset above := by rw [earliest, comment]
    rw [if_neg (Nat.not_lt.2 (Nat.le_of_eq same.symm))]
    rfl
  | some words =>
    obtain ⟨note, above, rfl, earlier, -⟩ := commentAbove?_eq_some comment
    have lines' : split '\n' document.chars = above.reverse ++ note :: line :: below := by
      rw [lines, List.reverse_cons, List.append_assoc, List.singleton_append]
    have before : earliest (note :: above) < lineOffset (note :: above) := by
      rw [earlier, lineOffset_cons]
      omega
    rw [if_pos before, earlier, Document.lineAt_lineOffset lines']
    rfl

/-- Without a comment above it a header begins with its own line; with one, the comment is the line
above. -/
theorem commentLine?_cases (name : String)
    (lines : split '\n' document.chars = above.reverse ++ line :: below) :
    let target : Target :=
      ⟨document, grammar, ⟨name, commentOn above, earliest above, lineOffset above⟩⟩
    target.commentLine? = none ∧ target.comment = "" ∨
      ∃ note, target.commentLine? = some note ∧ document.line? note.number = some note ∧
        note.number + 1 = above.length ∧ ∃ text, note.text.toList = '#' :: text ∧
          target.comment.toList = dropLastWhile isGap (text.dropWhile isGap) := by
  intro target
  have noted : target.commentLine? = _ := @commentLine?_eq _ grammar _ _ _ name lines
  cases comment : commentAbove? above with
  | none =>
    rw [comment] at noted
    refine .inl ⟨noted, ?_⟩
    show commentOn above = ""
    rw [commentOn, comment]
    rfl
  | some words =>
    rw [comment] at noted
    obtain ⟨note, above, rfl, -, text, hash, words_eq⟩ := commentAbove?_eq_some comment
    have lines' : split '\n' document.chars = above.reverse ++ note :: line :: below := by
      rw [lines, List.reverse_cons, List.append_assoc, List.singleton_append]
    refine .inr ⟨Document.lineBelow above note, noted, Document.line?_of_lines lines', rfl, text,
      ?_, ?_⟩
    · exact (String.toList_ofList).trans hash
    · show (commentOn (note :: above)).toList = _
      rw [commentOn, comment, words_eq]
      exact String.toList_ofList

theorem Target.onLines_of_header? {rule : HeaderRule} (marked : rule.quiet = true → grammar = .just)
    {header : Header} (lines : split '\n' document.chars = above.reverse ++ line :: below)
    (found : rule.header? above line = some header) :
    Target.OnLines ⟨document, grammar, header⟩ := by
  obtain ⟨name, body, parts, rfl⟩ := header?_eq_some found
  have here : Target.headerLine ⟨document, grammar,
      ⟨String.ofList name, commentOn above, earliest above, lineOffset above⟩⟩ =
        Document.lineBelow above line := Document.lineAt_lineOffset lines
  have comment := @commentLine?_cases document grammar above below line (String.ofList name) lines
  refine ⟨?_, ?_, Target.isSome_commentLine? _, ?_, ?_⟩
  · rw [here]
    exact Document.line?_of_lines lines
  · have begins := name_prefix parts
    rw [here]
    simp only [Target.name, Document.lineBelow, String.toList_ofList]
    exact begins.imp_right (And.imp_left marked)
  · intro without
    rcases comment with ⟨-, empty⟩ | ⟨note, present, -⟩
    · exact empty
    · rw [without] at present
      cases present
  · intro other present
    rcases comment with ⟨without, -⟩ | ⟨note, present', listed, next, text, hash, words⟩
    · rw [without] at present
      cases present
    · rw [present] at present'
      cases present'
      rw [here]
      exact ⟨listed, next, text, hash, words⟩

/-- What a header of a document says about its place: it begins at the start of a line, and so does
its header line, which is not before it. -/
structure Header.Starts (document : Document) (header : Header) : Prop where
  offset : document.StartsLine header.offset
  headerOffset : document.StartsLine header.headerOffset
  le : header.offset ≤ header.headerOffset

theorem starts_of_header? {rule : HeaderRule} {header : Header}
    (lines : split '\n' document.chars = above.reverse ++ line :: below)
    (found : rule.header? above line = some header) : header.Starts document := by
  obtain ⟨name, body, parts, rfl⟩ := header?_eq_some found
  refine ⟨?_, ⟨above, line, below, lines, rfl⟩, earliest_le above⟩
  show document.StartsLine (earliest above)
  cases comment : commentAbove? above with
  | none => exact ⟨above, line, below, lines, by rw [earliest, comment]⟩
  | some words =>
    obtain ⟨note, above, rfl, earlier, -⟩ := commentAbove?_eq_some comment
    refine ⟨above, note, line :: below, ?_, earlier⟩
    rw [lines, List.reverse_cons, List.append_assoc, List.singleton_append]

end

namespace TargetFile

variable {file : TargetFile}

/-- The targets of a file stand on its lines, and each begins behind the header line of the one
before. -/
theorem targets_apart (builtin : file.grammar = .make ∨ file.grammar = .just) :
    (∀ target ∈ file.targets, target.OnLines ∧ target.header.Starts file.document ∧
      target.document = file.document) ∧
    file.targets.Pairwise fun a b => a.header.headerOffset < b.offset := by
  obtain ⟨rule, marked, headers⟩ := Grammar.exists_rule builtin
  constructor
  · intro target mem
    obtain ⟨header, found, rfl⟩ := List.mem_map.1 mem
    rw [headers] at found
    obtain ⟨above, line, below, lines, found⟩ := HeaderRule.exists_line_of_mem found
    exact ⟨Target.onLines_of_header? marked lines found, starts_of_header? lines found, rfl⟩
  · rw [targets, List.pairwise_map, headers]
    exact (rule.apart_headersBelow _ _).2

/-- Lines that start where targets or their header lines do come in the order of the targets. -/
theorem pairwise_lines (builtin : file.grammar = .make ∨ file.grammar = .just)
    {start : Target → Nat} (either : ∀ target ∈ file.targets,
      start target = target.offset ∨ start target = target.header.headerOffset) :
    file.targets.Pairwise fun a b =>
      (file.document.lineAt (start a)).number < (file.document.lineAt (start b)).number := by
  obtain ⟨each, apart⟩ := targets_apart builtin
  have place : ∀ target ∈ file.targets, file.document.StartsLine (start target) ∧
      target.offset ≤ start target ∧ start target ≤ target.header.headerOffset := by
    intro target mem
    obtain ⟨-, starts, -⟩ := each target mem
    rcases either target mem with same | same <;> rw [same]
    · exact ⟨starts.offset, Nat.le_refl _, starts.le⟩
    · exact ⟨starts.headerOffset, starts.le, Nat.le_refl _⟩
  refine apart.imp_of_mem fun {a b} ha hb before => ?_
  obtain ⟨starts, -, upper⟩ := place a ha
  obtain ⟨starts', lower, -⟩ := place b hb
  exact starts.number_lt starts' (by omega)

end TargetFile

/-- Where the line of an inline runner starts: with the header line or with the target itself. -/
def Target.anchorStart (target : Target) : Placement → Nat
  | .target => target.header.headerOffset
  | .comment => target.offset

theorem Target.anchorStart_cases (target : Target) (placement : Placement) :
    target.anchorStart placement = target.offset ∨
      target.anchorStart placement = target.header.headerOffset := by
  cases placement with
  | target => exact .inr rfl
  | comment => exact .inl rfl

theorem Target.anchorLine_eq {target : Target} (le : target.offset ≤ target.header.headerOffset)
    (placement : Placement) :
    target.anchorLine placement = target.document.lineAt (target.anchorStart placement) := by
  cases placement with
  | target => rfl
  | comment =>
    unfold anchorLine commentLine?
    dsimp only
    split
    · rfl
    · next other =>
      have same : target.offset = target.header.headerOffset :=
        Nat.le_antisymm le (Nat.not_lt.1 other)
      rw [anchorStart, same]
      rfl

/-- Where an inline runner stands: on the header line of its target, or on the comment line if that
is asked for and there is one. -/
def InlineAnchor.Stands (anchor : InlineAnchor) : Placement → Prop
  | .target => anchor.line = anchor.target.headerLine
  | .comment => anchor.target.commentLine? = some anchor.line ∨
      anchor.target.commentLine? = none ∧ anchor.line = anchor.target.headerLine

theorem TargetFile.target_inlineAnchors (file : TargetFile) (placement : Placement) :
    (file.inlineAnchors placement).map InlineAnchor.target = file.targets := by
  rw [inlineAnchors, List.map_map]
  exact List.map_id _

theorem TargetFile.stands_inlineAnchors {file : TargetFile} {placement : Placement}
    {anchor : InlineAnchor} (mem : anchor ∈ file.inlineAnchors placement) :
    anchor.Stands placement := by
  obtain ⟨target, -, rfl⟩ := List.mem_map.1 mem
  cases placement with
  | target => rfl
  | comment =>
    unfold InlineAnchor.Stands Target.anchorLine
    dsimp only
    cases target.commentLine? with
    | none => exact .inr ⟨rfl, rfl⟩
    | some note => exact .inl rfl

/-- **Targets and lines belong together one to one.** In a makefile or justfile, whatever its text
is, the header lines lie one below the other; each begins with the name of its target, and the line
above it holds the comment wherever there is one. A line has the target whose header it is, and no
other line has one. Each target has one inline runner, on its header line or on its comment line,
and they stand on different lines, one below the other. -/
theorem targets_stand_on_own_lines (file : TargetFile)
    (builtin : file.grammar = .make ∨ file.grammar = .just) :
    (file.targets.Pairwise fun a b => a.headerLine.number < b.headerLine.number) ∧
    (∀ target ∈ file.targets, target.OnLines) ∧
    (∀ number target, file.targetAtLine? number = some target ↔
      target ∈ file.targets ∧ target.headerLine.number = number) ∧
    ∀ placement,
      (file.inlineAnchors placement).map InlineAnchor.target = file.targets ∧
      (∀ anchor ∈ file.inlineAnchors placement, anchor.Stands placement) ∧
      (file.inlineAnchors placement).Pairwise fun a b => a.line.number < b.line.number := by
  obtain ⟨each, -⟩ := TargetFile.targets_apart builtin
  have headerLine : ∀ target ∈ file.targets,
      target.headerLine = file.document.lineAt target.header.headerOffset := by
    intro target mem
    rw [Target.headerLine, (each target mem).2.2]
  have ascending : file.targets.Pairwise fun a b => a.headerLine.number < b.headerLine.number := by
    refine (TargetFile.pairwise_lines builtin fun target _ => .inr rfl).imp_of_mem ?_
    intro a b ha hb before
    rwa [headerLine a ha, headerLine b hb]
  refine ⟨ascending, fun target mem => (each target mem).1,
    fun number target => find?_key_eq_some_iff ascending,
    fun placement => ⟨file.target_inlineAnchors placement,
      fun _ => TargetFile.stands_inlineAnchors, ?_⟩⟩
  rw [TargetFile.inlineAnchors, List.pairwise_map]
  have anchored := TargetFile.pairwise_lines builtin fun target _ =>
    target.anchorStart_cases placement
  refine anchored.imp_of_mem fun {a b} ha hb before => ?_
  obtain ⟨-, starts, document⟩ := each a ha
  obtain ⟨-, starts', document'⟩ := each b hb
  dsimp only
  rwa [Target.anchorLine_eq starts.le, Target.anchorLine_eq starts'.le, document, document']

/-- A justfile with a quiet recipe under a comment that ends in a carriage return, a header right
below it, and a comment that is lost, since it goes on the line above. -/
def recipes : TargetFile :=
  ⟨⟨⟨"justfile"⟩, "# run it\r\n@all x='1':\r\nb:\n# \\\n# lost\nc:\n"⟩, .just⟩

theorem recipes_on_lines :
    (recipes.grammar = .make ∨ recipes.grammar = .just) ∧
      recipes.targetAtLine? 1 = some ⟨recipes.document, .just, ⟨"all", "run it", 0, 10⟩⟩ ∧
      recipes.targetAtLine? 5 = some ⟨recipes.document, .just, ⟨"c", "", 37, 37⟩⟩ ∧
      (recipes.inlineAnchors .comment).map InlineAnchor.target = recipes.targets ∧
      (recipes.inlineAnchors .comment).map (fun anchor => (anchor.target.name, anchor.line.number)) =
        [("all", 0), ("b", 2), ("c", 5)] ∧
      (∀ anchor ∈ recipes.inlineAnchors .comment, anchor.Stands .comment) ∧
      (recipes.inlineAnchors .comment).Pairwise fun a b => a.line.number < b.line.number := by
  have builtin : recipes.grammar = .make ∨ recipes.grammar = .just := .inr rfl
  obtain ⟨-, -, atLine, anchors⟩ := targets_stand_on_own_lines recipes builtin
  obtain ⟨one, stands, apart⟩ := anchors .comment
  exact ⟨builtin, (atLine 1 _).2 (by decide +kernel), (atLine 5 _).2 (by decide +kernel), one,
    by decide +kernel, stands, apart⟩

end BuildTargets
