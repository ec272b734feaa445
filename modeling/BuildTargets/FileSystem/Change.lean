import BuildTargets.FileSystem

/-!
# Changes between file systems

What it takes to make one tree from another, one location at a time.
-/

namespace BuildTargets

inductive Change where
  | remove (place : List String) (entry : Entry)
  | makeDirectory (place : List String)
  | write (place : List String) (content : ByteArray)

namespace FileSystem

/-- What is in one tree and is not of that kind in another, an entry before the directory that
it is in. -/
def removals (before after : FileSystem) : List Change :=
  (before.root.descendants.filterMap fun (place, entry) =>
    match after.root.at? place with
    | some other => if entry.isFile == other.isFile then none else some (.remove place entry)
    | none => some (.remove place entry)).reverse

/-- What is in one tree and is not the same in another, a directory before its entries. -/
def additions (before after : FileSystem) : List Change :=
  after.root.descendants.filterMap fun (place, entry) =>
    match entry, before.root.at? place with
    | .directory _, some (.directory _) => none
    | .directory _, _ => some (.makeDirectory place)
    | .file content, some (.file old) =>
      if content == old then none else some (.write place content)
    | .file content, _ => some (.write place content)

/-- The changes that lead from one tree to another, in an order in which they can be made. -/
def changes (before after : FileSystem) : List Change :=
  removals before after ++ additions before after

end FileSystem

end BuildTargets
