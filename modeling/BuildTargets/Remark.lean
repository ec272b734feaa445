import BuildTargets.Fault

/-!
# Remarks

What is told while the work goes on: parts that were skipped, and news that there was nothing to
find. A remark carries its cause; `message` words it.
-/

namespace BuildTargets

inductive Level where
  | warning
  | error
deriving DecidableEq, Repr

inductive Remark where
  | includeNotSearched (argument : String) (file : Path) (cause : Fault)
  | includeNotLoaded (path : Path) (cause : Fault)
  | fileNotLoaded (path : Path) (cause : Fault)
  | runnerSkipped (runner : String) (cause : Fault)
  | notice (news : Notice)
  | nothingReachable (line : Nat) (file : Path)
  | nothingRun
deriving DecidableEq, Repr

namespace Remark

/-- An include that cannot be followed is an error unless the fault lies in the files at hand. -/
def level : Remark → Level
  | includeNotSearched _ _ cause => if cause.isRecoverable then .warning else .error
  | includeNotLoaded _ cause => if cause.isRecoverable then .warning else .error
  | _ => .warning

def message : Remark → String
  | includeNotSearched argument file cause =>
    (if cause.isRecoverable then "skipping include '" else "failed to expand include '") ++
      argument ++ "' in " ++ file.text ++ ": " ++ cause.message
  | includeNotLoaded path cause =>
    (if cause.isRecoverable then "skipping include " else "failed to load include ") ++
      path.text ++ ": " ++ cause.message
  | fileNotLoaded path cause => "skipping " ++ path.text ++ ": " ++ cause.message
  | runnerSkipped runner cause => "Skipping runner '" ++ runner ++ "': " ++ cause.message
  | notice news => news.message
  | nothingReachable line file =>
    "No targets reachable from line " ++ toString line ++ " of " ++ file.text
  | nothingRun => "Nothing has been run yet"

end Remark

end BuildTargets
