import BuildTargets.RunRecord
import BuildTargets.Settings
import BuildTargets.Template

/-!
# Launching targets

A target is rendered to a command by the settings of its runner and handed to an executor. A run
is recorded before it is executed, whatever becomes of it; a dry run is not recorded.
-/

namespace BuildTargets

/-- A command that is ready to be executed, and what it was made for. -/
structure Command where
  text : String
  directory : Path
  action : Action
  runner : String
  name : String
deriving DecidableEq, Repr

/-- How a command ended; there is no exit code if it was killed. -/
structure Outcome where
  exitCode : Option Int32
deriving DecidableEq

def Outcome.isSuccess (outcome : Outcome) : Bool := outcome.exitCode == some 0

/-- What commands are made by and handed to. The executor and the store of the last run may
depend on a state `σ` and may change it. -/
structure Launcher (σ : Type) where
  settings : Settings
  executor : Command → σ → Except Fault Outcome × σ
  save : RunRecord → σ → Except Fault Unit × σ
  stored : σ → Except Fault (Option RunRecord) × σ

namespace Launcher

variable {σ : Type}

def render (launcher : Launcher σ) (target : Occurrence) (action : Action) :
    Except Fault Command :=
  match launcher.settings.runner target.runner with
  | .error cause => .error cause
  | .ok runner =>
    if action = .dryRun ∧ target.grammar.supportsDryRun = false then
      .error (.config (.noDryRun target.runner))
    else
      match runner.template? action with
      | none => .error (.config (.noCommand action target.runner))
      | some template =>
        .ok ⟨Template.render template target, target.directory, action, target.runner,
          target.name⟩

def run (launcher : Launcher σ) (target : Occurrence) (state : σ) : Except Fault Outcome × σ :=
  match launcher.render target .run with
  | .error cause => (.error cause, state)
  | .ok command =>
    match launcher.save (.ofOccurrence target command.text) state with
    | (.error cause, state) => (.error cause, state)
    | (.ok (), state) => launcher.executor command state

/-- Executes the dry run of a target; nothing is recorded. -/
def dryRun (launcher : Launcher σ) (target : Occurrence) (state : σ) : Except Fault Outcome × σ :=
  match launcher.render target .dryRun with
  | .error cause => (.error cause, state)
  | .ok command => launcher.executor command state

def execute (launcher : Launcher σ) (target : Occurrence) :
    Action → σ → Except Fault Outcome × σ
  | .run => launcher.run target
  | .dryRun => launcher.dryRun target

/-- The target that was run last, if any was, found again in its documents. -/
def lastTarget (launcher : Launcher σ) (load : Path → σ → Except Fault Document × σ)
    (grammars : Grammars) (state : σ) : Except Fault (Option Occurrence) × σ :=
  match launcher.stored state with
  | (.error cause, state) => (.error cause, state)
  | (.ok none, state) => (.ok none, state)
  | (.ok (some record), state) =>
    match record.restore load grammars state with
    | (.error cause, state) => (.error cause, state)
    | (.ok target, state) => (.ok (some target), state)

/-- Runs the last target again by the settings of today; nothing happens if none was run. -/
def rerun (launcher : Launcher σ) (load : Path → σ → Except Fault Document × σ)
    (grammars : Grammars) (state : σ) : Except Fault (Option Outcome) × σ :=
  match launcher.lastTarget load grammars state with
  | (.error cause, state) => (.error cause, state)
  | (.ok none, state) => (.ok none, state)
  | (.ok (some target), state) =>
    match launcher.run target state with
    | (.error cause, state) => (.error cause, state)
    | (.ok outcome, state) => (.ok (some outcome), state)

end Launcher

end BuildTargets
