import BuildTargets.Document
import BuildTargets.Fault

/-!
# File systems

A tree of files and directories with a working directory. Paths are followed name by name: `..`
leads to the directory above (the root is above itself), every name but the last has to be a
directory, and a path that ends in a separator or in `.` asks for a directory. There are no
links, so a place has one location: the names that lead to it from the root.

Left out are permissions, faults of the device, names that are no Unicode text, and changes that
others make to the tree meanwhile: what is there can be read and written, and what is read is what
was written last.
-/

namespace BuildTargets

/-- A file with its bytes, or a directory with its entries. -/
inductive Entry where
  | file (content : ByteArray)
  | directory (entries : List (String × Entry))
deriving Inhabited

namespace Entry

def empty : Entry := directory []

def isFile : Entry → Bool
  | file _ => true
  | directory _ => false

def isDirectory : Entry → Bool
  | file _ => false
  | directory _ => true

def entries : Entry → List (String × Entry)
  | file _ => []
  | directory entries => entries

def at? (entry : Entry) : List String → Option Entry
  | [] => some entry
  | name :: rest =>
    match entry.entries.lookup name with
    | some inner => inner.at? rest
    | none => none

/-- Puts an entry under a name, in place of the one that is there. -/
def putName (name : String) (new : Entry) : List (String × Entry) → List (String × Entry)
  | [] => [(name, new)]
  | (other, entry) :: rest =>
    if other = name then (name, new) :: rest else (other, entry) :: putName name new rest

/-- Puts an entry at a location. Nothing happens if what leads to it is not there. -/
def put (entry new : Entry) : List String → Entry
  | [] => new
  | name :: rest =>
    match entry with
    | file content => file content
    | directory entries =>
      match rest, entries.lookup name with
      | [], _ => directory (putName name new entries)
      | _, some inner => directory (putName name (inner.put new rest) entries)
      | _, none => entry

def erase (entry : Entry) : List String → Entry
  | [] => entry
  | name :: rest =>
    match entry with
    | file content => file content
    | directory entries =>
      match rest, entries.lookup name with
      | [], _ => directory (entries.filter (·.1 ≠ name))
      | _, some inner => directory (putName name (inner.erase rest) entries)
      | _, none => entry

mutual

/-- Everything below an entry, by location, a directory before its entries. -/
def descendants : Entry → List (List String × Entry)
  | file _ => []
  | directory entries => descendantsOf entries

def descendantsOf : List (String × Entry) → List (List String × Entry)
  | [] => []
  | (name, entry) :: rest =>
    ([name], entry) :: (entry.descendants.map fun (names, inner) => (name :: names, inner)) ++
      descendantsOf rest

end

end Entry

/-- A tree, and the location of the working directory in it. -/
structure FileSystem where
  root : Entry
  workingDirectory : List String
deriving Inhabited

namespace FileSystem

/-- The most bytes that a name may have. -/
def longestName : Nat := 255

/-- The most bytes that a path may have. -/
def longestPath : Nat := 4095

def pathTo (place : List String) : Path :=
  if place.isEmpty then ⟨"/"⟩ else ⟨String.join (place.map ("/" ++ ·))⟩

/-! ## Following paths -/

/-- Follows components from a location, through directories that are there. -/
def locate (files : FileSystem) (place : List String) :
    List Path.Component → Except FileFault (List String)
  | [] => .ok place
  | .root :: rest => files.locate [] rest
  | .here :: rest => files.locate place rest
  | .up :: rest =>
    match files.root.at? place with
    | some (.directory _) => files.locate place.dropLast rest
    | some (.file _) => .error .notDirectory
    | none => .error .missing
  | .name name :: rest =>
    match files.root.at? place with
    | some (.directory entries) =>
      if longestName < name.utf8ByteSize then .error .nameTooLong
      else if (entries.lookup name).isSome then files.locate (place ++ [name]) rest
      else .error .missing
    | some (.file _) => .error .notDirectory
    | none => .error .missing

/-- What is wrong with a path before any part of it is followed. -/
def pathFault? (path : Path) : Option FileFault :=
  if path.text.toList.contains '\x00' then some .nulInName
  else if path.text = "" then some .missing
  else if longestPath < path.text.utf8ByteSize then some .nameTooLong
  else none

/-- Whether a path asks for a directory by the way it ends. -/
def asksForDirectory (path : Path) : Bool :=
  match path.text.toList.reverse with
  | '/' :: _ => true
  | '.' :: '/' :: _ => true
  | _ => false

def lookup (files : FileSystem) (path : Path) : Except FileFault (List String × Entry) :=
  match pathFault? path with
  | some cause => .error cause
  | none =>
    match files.locate files.workingDirectory path.components with
    | .error cause => .error cause
    | .ok place =>
      match files.root.at? place with
      | none => .error .missing
      | some (.file content) =>
        if asksForDirectory path then .error .notDirectory else .ok (place, .file content)
      | some entry => .ok (place, entry)

/-- The entry that a path leads to, if it leads to one. -/
def entry? (files : FileSystem) (path : Path) : Option Entry :=
  match files.lookup path with
  | .ok (_, entry) => some entry
  | .error _ => none

def contains (files : FileSystem) (path : Path) : Bool := (files.entry? path).isSome

def isFile (files : FileSystem) (path : Path) : Bool := (files.entry? path).any Entry.isFile

def isDirectory (files : FileSystem) (path : Path) : Bool :=
  (files.entry? path).any Entry.isDirectory

/-! ## Reading -/

def read (files : FileSystem) (path : Path) : Except FileFault ByteArray :=
  match files.lookup path with
  | .ok (_, .file content) => .ok content
  | .ok (_, .directory _) => .error .isDirectory
  | .error cause => .error cause

def readText (files : FileSystem) (path : Path) : Except FileFault String :=
  match files.read path with
  | .error cause => .error cause
  | .ok content =>
    match String.fromUTF8? content with
    | some text => .ok text
    | none => .error .notText

/-- Reads the document at a path; it carries the path in normal form. -/
def openDocument (files : FileSystem) (path : Path) : Except Fault Document :=
  match files.readText path with
  | .ok text => .ok ⟨path.normalize, text⟩
  | .error cause => .error (.documentNotFound path cause)

/-! ## Changing -/

/-- The directory that the last name of a path would be an entry of, and that name; there is no
name where the path ends in `.`, in `..` or at the root. -/
def parentOf (files : FileSystem) (path : Path) :
    Except FileFault (List String × List (String × Entry) × Option String) :=
  match pathFault? path with
  | some cause => .error cause
  | none =>
    match files.locate files.workingDirectory path.components.dropLast with
    | .error cause => .error cause
    | .ok place =>
      match files.root.at? place with
      | some (.directory entries) =>
        match path.components.getLast? with
        | some (.name name) =>
          if longestName < name.utf8ByteSize then .error .nameTooLong
          else .ok (place, entries, some name)
        | _ => .ok (place, entries, none)
      | some (.file _) => .error .notDirectory
      | none => .error .missing

/-- Writes a file, in place of the one that is there. -/
def write (files : FileSystem) (path : Path) (content : ByteArray) :
    Except FileFault Unit × FileSystem :=
  match files.parentOf path with
  | .error cause => (.error cause, files)
  | .ok (_, _, none) => (.error .isDirectory, files)
  | .ok (place, entries, some name) =>
    if asksForDirectory path || (entries.lookup name).any Entry.isDirectory then
      (.error .isDirectory, files)
    else (.ok (), { files with root := files.root.put (.file content) (place ++ [name]) })

def makeDirectory (files : FileSystem) (path : Path) : Except FileFault Unit × FileSystem :=
  match files.parentOf path with
  | .error cause => (.error cause, files)
  | .ok (_, _, none) => (.error .exists, files)
  | .ok (place, entries, some name) =>
    if (entries.lookup name).isSome then (.error .exists, files)
    else (.ok (), { files with root := files.root.put .empty (place ++ [name]) })

/-- A path, its parent, the parent of that, and so on. -/
def ancestors (path : Path) : List Path :=
  let pieces := path.pieces
  path :: ((List.range pieces.length).reverse.map fun count => path.stretch (pieces.take count))

/-- Makes the first of some directories, each of which lies in the next one, with those of the
others that it needs. One that is there already will do. -/
def makeFirst (files : FileSystem) : List Path → Except FileFault Unit × FileSystem
  | [] => (.ok (), files)
  | path :: above =>
    if path.text = "" then (.ok (), files)
    else match files.makeDirectory path with
      | (.ok (), files) => (.ok (), files)
      | (.error .missing, files) =>
        match files.makeFirst above with
        | (.error cause, files) => (.error cause, files)
        | (.ok (), files) =>
          match files.makeDirectory path with
          | (.ok (), files) => (.ok (), files)
          | (.error cause, files) =>
            if files.isDirectory path then (.ok (), files) else (.error cause, files)
      | (.error cause, files) =>
        if files.isDirectory path then (.ok (), files) else (.error cause, files)

def makeDirectories (files : FileSystem) (path : Path) : Except FileFault Unit × FileSystem :=
  files.makeFirst (ancestors path)

/-- Writes a file, and before that makes the directories above it. -/
def writeBelow (files : FileSystem) (path : Path) (content : ByteArray) :
    Except FileFault Unit × FileSystem :=
  match files.makeDirectories (path.parent?.getD ⟨""⟩) with
  | (.error cause, files) => (.error cause, files)
  | (.ok (), files) => files.write path content

/-- Takes away the file or directory at a path, with all that is below it. -/
def remove (files : FileSystem) (path : Path) : Except FileFault Unit × FileSystem :=
  match files.lookup path with
  | .ok (place, _) => (.ok (), { files with root := files.root.erase place })
  | .error cause => (.error cause, files)

end FileSystem

end BuildTargets
