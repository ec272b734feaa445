import BuildTargets.TargetFile

/-!
# Records of runs

A record says which target was run last, so that it can be found again in the documents as they
are now: at the recorded place if a target of that name is still there, otherwise as the first
target of that name. The command is kept for the reader.
-/

namespace BuildTargets

/-- How an included target was reached: from which root, and through which directive. -/
structure IncludeOrigin where
  root : Path
  sitePath : Path
  siteOffset : Nat
deriving DecidableEq, Repr

/-- A target that was run, with the command it was run by. -/
structure RunRecord where
  runner : String
  name : String
  declaredIn : Path
  offset : Nat
  includedFrom : Option IncludeOrigin
  command : String
deriving DecidableEq, Repr

namespace RunRecord

def ofOccurrence (occurrence : Occurrence) (command : String) : RunRecord where
  runner := occurrence.runner
  name := occurrence.name
  declaredIn := occurrence.declared.path
  offset := occurrence.declared.offset
  includedFrom := match occurrence with
    | .direct _ => none
    | .included target =>
      some ⟨target.root.path, target.site.document.path, target.site.offset⟩
  command := command

def findIn? (record : RunRecord) (file : TargetFile) : Option Target :=
  match file.targets.find? fun target =>
      target.offset == record.offset && target.name == record.name with
  | some target => some target
  | none => file.targetNamed? record.name

variable {σ : Type}

/-- Finds the recorded target again, in documents read anew. Where the directive stands in the
root document, that is read once. -/
def restore (record : RunRecord) (load : Path → σ → Except Fault Document × σ)
    (grammars : Grammars) (state : σ) : Except Fault Occurrence × σ :=
  match grammars.get record.runner with
  | .error cause => (.error cause, state)
  | .ok grammar =>
    match load record.declaredIn state with
    | (.error cause, state) => (.error cause, state)
    | (.ok document, state) =>
      match record.findIn? ⟨document, grammar⟩, record.includedFrom with
      | none, _ => (.error (.targetNotFound (.named record.name record.declaredIn)), state)
      | some target, none => (.ok (.direct target), state)
      | some target, some origin =>
        match load origin.root state with
        | (.error cause, state) => (.error cause, state)
        | (.ok root, state) =>
          if origin.sitePath.normalize.same origin.root.normalize then
            (.ok (.included ⟨target, root, ⟨root, origin.siteOffset⟩⟩), state)
          else
            match load origin.sitePath state with
            | (.error cause, state) => (.error cause, state)
            | (.ok site, state) =>
              (.ok (.included ⟨target, root, ⟨site, origin.siteOffset⟩⟩), state)

end RunRecord

end BuildTargets
