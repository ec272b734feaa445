import BuildTargets.FileSystem
import BuildTargets.Text.Split

/-!
# Searching for files

A glob for a whole path is followed component by component from the root or from the working
directory. A component without wildcards is looked up, one with wildcards is matched against the
names in a directory, and `**` stands for everything below. `findFiles` collects the files of
several globs below a base directory as an ascending list of normal paths.
-/

namespace BuildTargets

namespace FileSystem

/-- A name below a directory. Names in the working directory stand alone. -/
def child (directory : Path) (name : String) : Path :=
  if directory.same ⟨"."⟩ then ⟨name⟩ else directory.join ⟨name⟩

def children (files : FileSystem) (directory : Path) : List (String × Path) :=
  match files.entry? directory with
  | some entry => entry.entries.map fun (name, _) => (name, child directory name)
  | none => []

/-- Everything below a directory: path, name and entry. -/
def allBelow (files : FileSystem) (directory : Path) : List (Path × String × Entry) :=
  match files.entry? directory with
  | some entry => entry.descendants.map fun (names, inner) =>
      (names.foldl child directory, names.getLast?.getD "", inner)
  | none => []

/-- The paths that globs for one component each lead to from a path. -/
def follow (files : FileSystem) : List Glob → Path → List Path
  | [], path => [path]
  | glob :: globs, path =>
    match glob.literal? with
    | some name =>
      let next := child path name
      let isThere :=
        if name = "." ∨ name = ".." then files.isDirectory path else files.contains next
      if isThere then files.follow globs next else []
    | none =>
      if glob.isDeep then
        match globs with
        | [] => (files.allBelow path).filterMap fun (place, _, entry) =>
            if entry.isDirectory then some place else none
        | next :: later =>
          if next.isDeep then files.follow (next :: later) path
          else (files.allBelow path).flatMap fun (place, name, _) =>
            if next.matchesPath name then files.follow later place else []
      else
        let named := (files.children path).flatMap fun (name, place) =>
          if glob.matchesPath name then files.follow globs place else []
        let special := if glob.tokens.head? = some (.char '.') && files.isDirectory path then
            [".", ".."].flatMap fun name =>
              if glob.matchesPath name then files.follow globs (path.join ⟨name⟩) else []
          else []
        named ++ special

/-- The paths that a written glob leads to. -/
def globPaths (files : FileSystem) (text : String) : Except GlobFault (List Path) := do
  discard (Glob.read text)
  let chars := text.toList
  let (start, rest) : Path × List Char := match chars with
    | '/' :: rest => (⟨"/"⟩, rest)
    | _ => (⟨"."⟩, chars)
  let globs ← (Text.splitEnded '/' rest).mapM fun part => Glob.read (String.ofList part)
  let globs := if rest.isEmpty then globs ++ [⟨[]⟩] else globs
  let found := files.follow globs start
  if chars.getLast? = some '/' then return found.filter files.isDirectory else return found

/-- Puts a path in its place in an ascending list, once. -/
def insertPath (path : Path) : List Path → List Path
  | [] => [path]
  | first :: rest =>
    if first.same path then first :: rest
    else if path.le first then path :: first :: rest
    else first :: insertPath path rest

/-- The files below `base` that one of the patterns leads to, without those that an exclude
matches as seen from `base`. -/
def findFiles (files : FileSystem) (base : Path) (patterns excludes : List String) :
    Except Fault (List Path) := do
  let excluded ← excludes.mapM fun exclude =>
    (Glob.read exclude).mapError fun cause => Fault.discovery (.badExclude exclude cause)
  let escaped : Path := ⟨Glob.escape base.text⟩
  let found ← patterns.mapM fun pattern =>
    (files.globPaths (escaped.join ⟨pattern⟩).text).mapError fun cause =>
      Fault.discovery (.badPattern pattern cause)
  let kept := (found.flatten.map Path.normalize).filter fun path =>
    files.isFile path &&
      !excluded.any fun glob => glob.matchesPath (path.relativeTo base.normalize).text
  return kept.foldr insertPath []

end FileSystem

end BuildTargets
