import BuildTargets.Proofs.Launch.Restore

/-!
# What a command is made of

An included target is rendered as if the root document had declared it. A command can only tell two
occurrences apart by their name, their comment, the grammar they are read with and the file they run
from; and an included target has the grammar of the root, however deep in the includes it is
declared, and runs from the root.
-/

namespace BuildTargets

/-! ## Occurrences that render alike -/

/-- What templates and settings see of two occurrences is the same. -/
structure Occurrence.Alike (a b : Occurrence) : Prop where
  name : a.name = b.name
  comment : a.comment = b.comment
  grammar : a.grammar = b.grammar
  path : a.path = b.path

namespace Occurrence

theorem directory_eq (occurrence : Occurrence) : occurrence.directory = occurrence.path.directory :=
  match occurrence with
  | direct _ => rfl
  | included _ => rfl

variable {a b : Occurrence}

theorem Alike.runner (alike : a.Alike b) : a.runner = b.runner :=
  congrArg Grammar.runner alike.grammar

theorem Alike.directory (alike : a.Alike b) : a.directory = b.directory := by
  rw [directory_eq, directory_eq, alike.path]

end Occurrence

variable {a b : Occurrence}

theorem Placeholder.value_alike (alike : a.Alike b) (placeholder : Placeholder) :
    placeholder.value a = placeholder.value b := by
  cases placeholder with
  | name => exact alike.name
  | comment => exact alike.comment
  | runner => exact alike.runner
  | filePath => exact congrArg Path.text alike.path
  | directoryPath => exact congrArg Path.text alike.directory

namespace Template

open Text

theorem replacement_alike (alike : a.Alike b) : replacement a = replacement b := by
  funext found
  simp only [replacement, Placeholder.value_alike alike]

/-- Whatever the values are, they are put in and not read again. -/
theorem renderFrom_alike (alike : a.Alike b) (place : Cursor) :
    renderFrom a place = renderFrom b place := by
  fun_induction renderFrom a place with
  | case1 place none => rw [renderFrom, none]
  | case2 place found search ih =>
    rw [renderFrom.eq_def b, search, replacement_alike alike]
    dsimp only
    split
    · next onward => rw [ih onward]
    · rfl

end Template

/-- **Rendering sees no more of an occurrence and of a launcher** than what alike occurrences share,
and the settings. -/
theorem Launcher.render_alike {σ τ : Type} {launcher : Launcher σ} {other : Launcher τ}
    (settings : launcher.settings = other.settings) (alike : a.Alike b) (action : Action) :
    launcher.render a action = other.render b action := by
  have template : ∀ template : String, Template.render template a = Template.render template b :=
    fun template => congrArg String.ofList (Template.renderFrom_alike alike _)
  simp only [render, settings, alike.runner, alike.grammar, alike.directory, alike.name, template]

/-! ## Included targets -/

/-- Included targets of a root file, as its list of all targets or one of its lines gives them. -/
def Walker.Lists {σ : Type} (walker : Walker σ) (root : TargetFile) (state : σ)
    (target : IncludedTarget) : Prop :=
  .included target ∈ (walker.allTargets root state).1 ∨
    ∃ line, target ∈ (walker.targetsAtLine root line state).1

variable {σ : Type} {walker : Walker σ} {root : TargetFile} {state : σ} {target : IncludedTarget}

/-- Whatever a walk finds and reads, it hands on the grammar of its root. -/
theorem Walk.origins_true (walker : Walker σ) :
    Walk.Origins walker (fun _ => True) (fun _ => True) (fun _ => True) where
  find _ _ := ⟨trivial, fun _ _ _ _ => trivial⟩
  load _ _ _ := ⟨trivial, fun _ _ => trivial⟩
  note _ := trivial

theorem Walker.descends_of_mem {edges : List IncludeEdge} {wanted : IncludedTarget → Bool}
    (mem : target ∈ (walker.targetsThrough root edges wanted none state).1) :
    target.declared.grammar = root.grammar ∧ target.root = root.document := by
  obtain ⟨included, descends, items⟩ := (Walk.origins_true walker).mem_gather trivial mem
  obtain ⟨declared, listed, rfl⟩ := List.mem_map.1 (List.mem_of_mem_filter items)
  obtain ⟨header, -, rfl⟩ := List.mem_map.1 listed
  exact ⟨descends.grammar, rfl⟩

/-- An included target is read with the grammar of the root and runs from it. -/
theorem Walker.Lists.descends (listed : walker.Lists root state target) :
    target.declared.grammar = root.grammar ∧ target.root = root.document := by
  rcases listed with mem | ⟨line, mem⟩
  · rcases Walker.mem_allTargets mem with ⟨_, _, other⟩ | ⟨_, through, same⟩
    · cases other
    · cases same
      exact descends_of_mem through
  · exact descends_of_mem mem

theorem Walker.lists_of_ends {final : σ} {files : List IncludedFile}
    (ends : Walk.Ends walker (Walk.start root root.edges true []) state files final)
    (short : files.length ≤ walker.limit)
    (mem : target ∈ files.flatMap fun included => included.targets root.document) :
    walker.Lists root state target := by
  refine .inl ?_
  rw [Walker.allTargets_eq ends short, ← List.map_flatMap]
  exact List.mem_append_right _ (List.mem_map_of_mem mem)

/-- **Included targets run as the root.** Whatever is found and read, an included target of a root
file is rendered, by every settings and for every action, to what a target of its name and comment
is rendered to that the root declares itself. So two included targets with the same name and comment
are rendered to the same if their roots lie at the same path and have the same grammar: where they
are declared, which directive they were reached through, and how deep, makes no difference. -/
theorem included_targets_render_as_direct {σ τ : Type} (walker : Walker σ) (root : TargetFile)
    (state : σ) (target : IncludedTarget) (listed : walker.Lists root state target)
    (launcher : Launcher τ) (action : Action) :
    (∀ header : Header, header.name = target.declared.name →
      header.comment = target.declared.comment →
      launcher.render (.included target) action =
        launcher.render (.direct ⟨root.document, root.grammar, header⟩) action) ∧
    ∀ {σ' τ' : Type} (walker' : Walker σ') (root' : TargetFile) (state' : σ')
      (target' : IncludedTarget) (launcher' : Launcher τ'), walker'.Lists root' state' target' →
      root'.path = root.path → root'.grammar = root.grammar →
      target'.declared.name = target.declared.name →
      target'.declared.comment = target.declared.comment →
      launcher'.settings = launcher.settings →
      launcher'.render (.included target') action = launcher.render (.included target) action := by
  obtain ⟨grammar, from_root⟩ := listed.descends
  refine ⟨fun header name comment => ?_, ?_⟩
  · have alike : (Occurrence.included target).Alike
        (.direct ⟨root.document, root.grammar, header⟩) :=
      ⟨name.symm, comment.symm, grammar, congrArg Document.path from_root⟩
    exact Launcher.render_alike rfl alike action
  · intro σ' τ' walker' root' state' target' launcher' listed' path grammar' name comment settings
    obtain ⟨grammar'', from_root'⟩ := listed'.descends
    have paths : target'.root.path = target.root.path := by
      rw [from_root, from_root']
      exact path
    have alike : (Occurrence.included target').Alike (.included target) :=
      ⟨name, comment, grammar''.trans (grammar'.trans grammar.symm), paths⟩
    exact Launcher.render_alike settings alike action

/-- Files of which one declares a target two includes away from a root, and another one the same
target where it is included directly. -/
def nested : Answers where
  find _ patterns _ := .ok (([⟨"lib/a"⟩, ⟨"lib/b"⟩, ⟨"misc/c"⟩] : List Path).filter fun path =>
    path.text ∈ patterns)
  load path :=
    if path = ⟨"lib/a"⟩ then .ok ⟨path, "include lib/b\n"⟩
    else if path = ⟨"lib/b"⟩ then .ok ⟨path, "# <filePath>\nrun:\n"⟩
    else .ok ⟨path, "all:\n# <filePath>\nrun: all\n"⟩

def nestedRoot (text : String) : TargetFile := ⟨⟨⟨"app/Makefile"⟩, text⟩, .make⟩

def nestedLauncher : Launcher Unit where
  settings := { Settings.standard with
    runners := .ofList [("make", ⟨["Makefile"], "<comment> <name> <fsPath> <dir> <x>", none⟩)] }
  executor _ state := (.ok ⟨some 0⟩, state)
  save _ state := (.ok (), state)
  stored state := (.ok none, state)

/-- The comment reads like a placeholder; it is put in as it is, for both targets. -/
theorem nested_target_renders_as_direct :
    let walker : Walker Unit := ⟨nested.source, [], 9⟩
    let root := nestedRoot "include lib/a\n"
    let other := nestedRoot "\ninclude misc/c\n"
    let deep : IncludedTarget := ⟨⟨⟨⟨"lib/b"⟩, "# <filePath>\nrun:\n"⟩, .make,
      ⟨"run", "<filePath>", 0, 13⟩⟩, root.document, ⟨⟨⟨"lib/a"⟩, "include lib/b\n"⟩, 0⟩⟩
    let near : IncludedTarget := ⟨⟨⟨⟨"misc/c"⟩, "all:\n# <filePath>\nrun: all\n"⟩, .make,
      ⟨"run", "<filePath>", 5, 18⟩⟩, other.document, ⟨other.document, 1⟩⟩
    let direct : Target := ⟨root.document, root.grammar, ⟨"run", "<filePath>", 3, 4⟩⟩
    walker.Lists root () deep ∧ walker.Lists other () near ∧
      nestedLauncher.render (.included deep) .run = nestedLauncher.render (.direct direct) .run ∧
      nestedLauncher.render (.included near) .run = nestedLauncher.render (.included deep) .run ∧
      (nestedLauncher.render (.direct direct) .run).toOption.map (·.text) =
        some "<filePath> run app/Makefile app <x>" := by
  intro walker root other deep near direct
  have walked : ∀ root : TargetFile, ∀ files,
      Walk.filesWithin? walker 9 (.start root root.edges true []) () = some files →
      files.length ≤ 9 → ∀ target ∈ files.flatMap fun included => included.targets root.document,
      walker.Lists root () target := by
    intro root files within short target mem
    obtain ⟨final, ends⟩ := Walk.ends_of_filesWithin? within
    exact Walker.lists_of_ends ends short mem
  have listed : walker.Lists root () deep := by
    refine walked root [⟨⟨⟨⟨"lib/a"⟩, "include lib/b\n"⟩, .make⟩, ⟨root.document, 0⟩, 1⟩,
      ⟨⟨deep.declared.document, .make⟩, deep.site, 2⟩] ?_ (by decide) deep ?_ <;> decide +kernel
  have listed' : walker.Lists other () near := by
    refine walked other [⟨⟨near.declared.document, .make⟩, near.site, 1⟩] ?_ (by decide) near ?_ <;>
      decide +kernel
  obtain ⟨same, alike⟩ :=
    included_targets_render_as_direct walker root () deep listed nestedLauncher .run
  exact ⟨listed, listed', same direct.header rfl rfl,
    alike walker other () near nestedLauncher listed' rfl rfl rfl rfl rfl, by decide +kernel⟩

end BuildTargets
