import BuildTargets.Settings
import BuildTargets.Walk

/-!
# Workspaces

A workspace is a project directory with its settings. A scan lists the target files of a runner
below it, or their targets. Files that cannot be read are left out with a remark; that there was
nothing to list is a notice, not a fault.
-/

namespace BuildTargets

/-- A target file found by a scan, with its directory as seen from the project. -/
structure WorkspaceFile where
  label : String
  file : TargetFile

structure FileTargets where
  entry : WorkspaceFile
  targets : List Occurrence

structure Scan (α : Type) where
  items : List α
  notices : List Notice

/-- A project directory, in normal form, and what it takes to scan it; one walk through includes
enters at most `limit` files. -/
structure Workspace (σ : Type) where
  root : Path
  settings : Settings
  grammars : Grammars
  source : Source σ
  limit : Nat

namespace Workspace

def rootLabel : String := "root"

variable {σ : Type}

/-- How includes are followed in a workspace: excludes hold for scans only. -/
def walker (workspace : Workspace σ) : Walker σ := ⟨workspace.source, [], workspace.limit⟩

def resolve (workspace : Workspace σ) (path : Path) : Path := (workspace.root.join path).normalize

/-- The directory of a file as seen from the project directory. -/
def label (workspace : Workspace σ) (path : Path) : String :=
  let directory := path.directory.relativeTo workspace.root
  if directory.text = "" || directory.same ⟨"."⟩ then rootLabel else directory.text

/-- Opens a file, which is a target file if a runner has a pattern for its name. -/
def open? (workspace : Workspace σ) (path : Path) (state : σ) :
    Except Fault (Option TargetFile) × σ :=
  match workspace.source.load (workspace.resolve path) state with
  | (.error cause, state) => (.error cause, state)
  | (.ok document, state) =>
    (TargetFile.detect document workspace.settings workspace.grammars, state)

/-- Moves the first path that is `active` to the front. -/
def activeFirst (active : Path) (paths : List Path) : List Path :=
  match paths.find? fun path => path.normalize.same active with
  | some found => found :: paths.eraseP fun path => path.normalize.same active
  | none => paths

/-- Reads the files at some paths, of which those that cannot be read are left out. -/
def loadAll (workspace : Workspace σ) (grammar : Grammar) :
    List Path → σ → List WorkspaceFile × σ
  | [], state => ([], state)
  | path :: paths, state =>
    match workspace.source.load path state with
    | (.ok document, state) =>
      let (files, state) := workspace.loadAll grammar paths state
      (⟨workspace.label path, ⟨document, grammar⟩⟩ :: files, state)
    | (.error cause, state) =>
      workspace.loadAll grammar paths (workspace.source.note (.fileNotLoaded path cause) state)

/-- The target files of a runner, the active one first. -/
def targetFiles (workspace : Workspace σ) (runner : String) (active : Option Path) (state : σ) :
    Except Fault (Scan WorkspaceFile) × σ :=
  match workspace.settings.runner runner, workspace.grammars.get runner with
  | .error cause, _ => (.error cause, state)
  | .ok _, .error cause => (.error cause, state)
  | .ok settings, .ok grammar =>
    match workspace.source.find workspace.root settings.workspacePatterns
        workspace.settings.excludedFolders state with
    | (.error cause, state) => (.error cause, state)
    | (.ok paths, state) =>
      let paths := match active with
        | some path => activeFirst (workspace.resolve path) paths
        | none => paths
      let (files, state) := workspace.loadAll grammar paths state
      (.ok ⟨files, if files.isEmpty then [.noFilesFound runner] else []⟩, state)

def targetsOf (workspace : Workspace σ) : List WorkspaceFile → σ → List FileTargets × σ
  | [], state => ([], state)
  | entry :: entries, state =>
    let (targets, state) := workspace.walker.allTargets entry.file state
    let (later, state) := workspace.targetsOf entries state
    (⟨entry, targets⟩ :: later, state)

/-- The targets of all target files of a runner, file by file. -/
def allTargets (workspace : Workspace σ) (runner : String) (active : Option Path) (state : σ) :
    Except Fault (Scan FileTargets) × σ :=
  match workspace.targetFiles runner active state with
  | (.error cause, state) => (.error cause, state)
  | (.ok files, state) =>
    let (items, state) := workspace.targetsOf files.items state
    let empty := items.filter fun item => item.targets.isEmpty
    (.ok ⟨items, files.notices ++ empty.map fun item => .noTargetsFound item.entry.file.path⟩,
      state)

end Workspace

end BuildTargets
