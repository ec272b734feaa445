import BuildTargets.FileSystem

/-!
# The state of a shell

A shell at work has files, streams and variables, and remembers how the last command ended.
-/

namespace BuildTargets.Shell

/-- Where a stream goes. What goes to the pipe is what the next job of a pipeline reads. -/
inductive Sink where
  | out
  | err
  | pipe
  | file (path : Path)
deriving DecidableEq, Repr

/-- `input` is what is left to read; `output`, `errors` and `piped` hold what went there.
`strict` says that a failure ends the script, and `left` that it was ended. -/
structure State where
  files : FileSystem
  input : ByteArray
  output : ByteArray
  errors : ByteArray
  piped : ByteArray
  outSink : Sink
  errSink : Sink
  values : List (String × String)
  status : Nat
  strict : Bool
  left : Bool

namespace State

def start (files : FileSystem) : State :=
  ⟨files, .empty, .empty, .empty, .empty, .out, .err, [], 0, false, false⟩

def send (state : State) (sink : Sink) (bytes : ByteArray) : State :=
  match sink with
  | .out => { state with output := state.output ++ bytes }
  | .err => { state with errors := state.errors ++ bytes }
  | .pipe => { state with piped := state.piped ++ bytes }
  | .file path =>
    let before := (state.files.read path).toOption.getD .empty
    { state with files := (state.files.write path (before ++ bytes)).2 }

def print (state : State) (text : String) : State := state.send state.outSink text.toUTF8

def ended (state : State) (status : Nat) : State := { state with status }

def failed (state : State) (status : Nat) (complaint : String) : State :=
  (state.send state.errSink (complaint ++ "\n").toUTF8).ended status

/-- Ends a command of the shell itself that has something to complain about. -/
def refused (state : State) (status : Nat) (complaint : String) : State :=
  state.failed status ("sh: 1: " ++ complaint)

/-- The value of a variable or of a special parameter; most are empty. -/
def value (state : State) (name : String) : String :=
  match name with
  | "?" => toString state.status
  | "0" => "sh"
  | "#" => "0"
  | _ =>
    match state.values.lookup name with
    | some text => text
    | none => if name = "PWD" then (FileSystem.pathTo state.files.workingDirectory).text else ""

def assign (state : State) (name text : String) : State :=
  { state with values := (name, text) :: state.values }

/-- What a part of a script leaves behind that runs in a shell of its own: files, what went to
the streams, and how it ended. -/
def isolated (before after : State) : State :=
  { before with
    files := { after.files with workingDirectory := before.files.workingDirectory }
    output := after.output
    errors := after.errors
    piped := after.piped
    input := after.input
    status := after.status }

end State

/-- What went wrong with a file, in the words of the small commands. -/
def reason : FileFault → String
  | .missing => "No such file or directory"
  | .exists => "File exists"
  | .notDirectory => "Not a directory"
  | .isDirectory => "Is a directory"
  | .nameTooLong => "File name too long"
  | cause => cause.message

end BuildTargets.Shell
