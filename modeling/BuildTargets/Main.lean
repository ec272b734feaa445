import BuildTargets.CommandLine
import BuildTargets.FileSystem.Change

/-!
# The executable

The files of a project are named on standard input, one path a line. The program reads them,
answers its command line on the tree that they make, prints what there is to print, and makes the
changes to the files that came about.
-/

namespace BuildTargets

partial def readListing (input : IO.FS.Stream) : IO (List Path) := do
  let line ← input.getLine
  if line.isEmpty then return []
  let path : Path := ⟨String.ofList (Text.dropLastWhile (· == '\n') line.toList)⟩
  return path :: (← readListing input)

def readFiles (files : FileSystem) (paths : List Path) : IO FileSystem :=
  paths.foldlM (fun files path => do
    let content ← IO.FS.readBinFile path.text
    return (files.writeBelow path content).2) files

def Change.make : Change → IO Unit
  | remove place (.file _) => IO.FS.removeFile (FileSystem.pathTo place).text
  | remove place (.directory _) => IO.FS.removeDir (FileSystem.pathTo place).text
  | makeDirectory place => IO.FS.createDirAll (FileSystem.pathTo place).text
  | write place content => IO.FS.writeBinFile (FileSystem.pathTo place).text content

def Remark.line (remark : Remark) : String :=
  (match remark.level with
    | .warning => "WARN "
    | .error => "ERROR ") ++ remark.message

end BuildTargets

open BuildTargets in
def main (arguments : List String) : IO UInt32 := do
  let here := (Text.split '/' (toString (← IO.currentDir)).toList).filter (!·.isEmpty)
  let bare : FileSystem := ⟨.empty, []⟩
  let root := (bare.makeDirectories (FileSystem.pathTo (here.map String.ofList))).2.root
  let files ← readFiles ⟨root, here.map String.ofList⟩ (← readListing (← IO.getStdin))
  let environment : CommandLine.Environment :=
    ⟨← IO.getEnv "MKRUN_FOLDER", .ofFilter (← IO.getEnv "RUST_LOG")⟩
  let ending := CommandLine.run arguments environment files
  (FileSystem.changes files ending.files).forM Change.make
  IO.print ending.output
  for remark in ending.remarks do IO.eprintln remark.line
  unless ending.errors.isEmpty do IO.eprintln ending.errors
  return ending.exitCode.toUInt32
