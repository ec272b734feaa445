import BuildTargets.FileSystem
import BuildTargets.Toml.Codec

/-!
# Configuration files

Settings are kept in a Toml file with a comment at its head. Where there is no file, the standard
settings hold.
-/

namespace BuildTargets

namespace Settings

def fileHead : String :=
  "# mkrun configuration\n# Command templates accept <name>, <comment>, <runner>, <filePath>, " ++
    "<directoryPath>\n\n"

def document (settings : Settings) : String := Toml.writeDocument settings.toToml

def load (path : Path) (files : FileSystem) : Except Fault Settings :=
  match files.readText path with
  | .error cause => .error (.file cause)
  | .ok text =>
    match (Toml.readDocument text).bind Settings.ofToml? with
    | some settings => .ok settings
    | none => .error (.toml "not a document of settings")

def loadOrStandard (path : Path) (files : FileSystem) : Except Fault Settings :=
  if files.contains path then load path files else .ok standard

/-- Writes a configuration file, and makes the directories above it. -/
def save (path : Path) (settings : Settings) (files : FileSystem) :
    Except Fault Unit × FileSystem :=
  let (result, files) := files.writeBelow path (fileHead ++ settings.document).toUTF8
  (result.mapError Fault.file, files)

end Settings

end BuildTargets
