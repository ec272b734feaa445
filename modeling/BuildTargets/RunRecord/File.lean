import BuildTargets.FileSystem
import BuildTargets.Json.Codec

/-!
# The file of the last run

The record of the last run is kept in one file of a state folder, which is made when it is
needed. No file means that nothing has been run.

The folder is made before the file is written, and it stays if the file cannot be written. Where the
path of the folder has `..` behind a name that is missing, making the folder brings that name about,
and the path of the file may then lead to what it did not lead to before.
-/

namespace BuildTargets

namespace RunRecord

def filePath (folder : Path) : Path := folder.join ⟨"last-target.json"⟩

/-- Writes a record in place of the one before. -/
def saveIn (folder : Path) (record : RunRecord) (files : FileSystem) :
    Except Fault Unit × FileSystem :=
  let (result, files) := files.writeBelow (filePath folder) record.toJson.pretty.toUTF8
  (result.mapError Fault.file, files)

def loadFrom (folder : Path) (files : FileSystem) : Except Fault (Option RunRecord) :=
  let path := filePath folder
  if files.contains path then
    match files.readText path with
    | .error cause => .error (.file cause)
    | .ok text =>
      match (Json.Value.read text).bind RunRecord.ofJson? with
      | some record => .ok (some record)
      | none => .error (.json "not the record of a run")
  else .ok none

end RunRecord

end BuildTargets
