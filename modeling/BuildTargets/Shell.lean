import BuildTargets.Launch
import BuildTargets.Shell.Script
import BuildTargets.Shell.Tool

/-!
# Running commands

Commands of targets are scripts for a shell. The shell here knows a handful of small commands and
works on a `FileSystem`; any other command is not found.
-/

namespace BuildTargets

namespace Shell

/-! ## Redirections -/

def point (state : State) (stream : Char) (sink : Sink) : State :=
  if stream = '1' then { state with outSink := sink }
  else if stream = '2' then { state with errSink := sink }
  else state

/-- Opens the files that streams go to or come from, one after the other. -/
def redirect (inner : String → State → State) : List Redirection → State → Except State State
  | [], state => .ok state
  | redirection :: rest, state =>
    let (name, state) := expandWhole inner redirection.file state
    match redirection.route with
    | .toStream '1' => redirect inner rest (point state redirection.stream state.outSink)
    | .toStream '2' => redirect inner rest (point state redirection.stream state.errSink)
    | .toStream _ => .error (state.refused 2 "Bad file descriptor")
    | .fromFile =>
      match state.files.read ⟨name⟩ with
      | .ok content => redirect inner rest { state with input := content }
      | .error cause =>
        let what := if cause = .missing then "No such file" else reason cause
        .error (state.refused 2 ("cannot open " ++ name ++ ": " ++ what))
    | .toFile append =>
      if name = "/dev/null" then redirect inner rest (point state redirection.stream (.file ⟨""⟩))
      else
        let content := if append then (state.files.read ⟨name⟩).toOption.getD .empty else .empty
        match state.files.write ⟨name⟩ content with
        | (.ok (), files) =>
          let path := (FileSystem.pathTo files.workingDirectory).join ⟨name⟩
          redirect inner rest (point { state with files } redirection.stream (.file path))
        | (.error cause, _) =>
          let what := if cause = .missing then "Directory nonexistent" else reason cause
          .error (state.refused 2 ("cannot create " ++ name ++ ": " ++ what))

def redirected (inner : String → State → State) (redirections : List Redirection)
    (run : State → State) (state : State) : State :=
  match redirect inner redirections state with
  | .error after => { after with outSink := state.outSink, errSink := state.errSink }
  | .ok opened => { run opened with outSink := state.outSink, errSink := state.errSink }

/-! ## Scripts -/

/-- Gives variables their values by the words that do so, at the start of a command. -/
def assignFirst (inner : String → State → State) : List Word → State → List Word × State
  | [], state => ([], state)
  | word :: words, state =>
    match assignment? word with
    | some (name, rest) =>
      let (text, state) := expandWhole inner rest state
      assignFirst inner words (state.assign name text)
    | none => (word :: words, state)

def asksForOutput (word : Word) : Bool :=
  word.any fun glyph =>
    match glyph with
    | .output _ _ => true
    | _ => false

/-- Runs a simple command. Values given in front of a command hold for it only; alone they end
well, unless an output that is asked for does not. -/
def runSimple (inner : String → State → State) (words : List Word)
    (redirections : List Redirection) (state : State) : State :=
  let (left, assigned) := assignFirst inner words state
  if assigned.left then assigned
  else if left.isEmpty then
    redirected inner redirections id
      (if words.any asksForOutput then assigned else assigned.ended 0)
  else
    let (texts, state) := expandAll inner left { assigned with values := state.values }
    if state.left then state
    else redirected inner redirections (fun state => runWords inner state texts) state

def Link.isDue (link : Link) (state : State) : Bool :=
  match link with
  | always => true
  | ifWell => state.status == 0
  | ifNot => state.status != 0

/-- Whether the first step of a script depends on how the one before it ended. -/
def Script.isLinked : Script → Bool
  | step .ifWell _ _ _ => true
  | step .ifNot _ _ _ => true
  | _ => false

def negate (state : State) : State := state.ended (if state.status = 0 then 1 else 0)

mutual

def runJob (inner : String → State → State) : Job → State → State
  | .simple words redirections, state => runSimple inner words redirections state
  | .group isolated body redirections, state =>
    redirected inner redirections (fun state =>
      let after := runSteps inner body state
      if isolated then state.isolated after else after) state
  | .choice condition body other redirections, state =>
    redirected inner redirections (fun state =>
      let after := runSteps inner condition { state with strict := false }
      let after := { after with strict := state.strict }
      if after.left then after
      else if after.status = 0 then runSteps inner body after
      else runSteps inner other (after.ended 0)) state
  | .loop name words body redirections, state =>
    redirected inner redirections (fun state =>
      let (texts, state) := expandAll inner words state
      texts.foldl (fun state text =>
        if state.left then state else runSteps inner body (state.assign name text))
        (state.ended 0)) state

/-- Runs a pipeline; a job of several changes nothing but files. -/
def runPipeline (inner : String → State → State) : Pipeline → State → State
  | .last job, state => runJob inner job state
  | .into job rest, state =>
    let first := runJob inner job { state with piped := .empty, outSink := .pipe }
    let between := { state.isolated first with input := first.piped, piped := state.piped }
    state.isolated (runPipeline inner rest between)

def runSteps (inner : String → State → State) : Script → State → State
  | .stop, state => state
  | .step link negated pipeline rest, state =>
    if state.left then state
    else if link.isDue state then
      let after := runPipeline inner pipeline state
      if negated && !after.left then runSteps inner rest (negate after)
      else if after.strict && after.status != 0 && !rest.isLinked then { after with left := true }
      else runSteps inner rest after
    else runSteps inner rest state

end

/-- Runs the text of a script. `depth` bounds how deep scripts are nested. -/
def runText : (depth : Nat) → String → State → State
  | 0, _, state => state.refused 2 "nested too deeply"
  | depth + 1, text, state =>
    match readScript text with
    | .ok script => runSteps (runText depth) script state
    | .error cause => { state.refused 2 cause.message with left := true }

/-- The deepest that scripts may be nested. -/
def deepest : Nat := 100

/-- Runs a command in its directory. The streams come back with how it ended. -/
def execute (command : Command) (files : FileSystem) : Except Fault (Outcome × State) :=
  let refused := fun cause => Except.error (Fault.execution (.notStarted command.text cause))
  if command.text.toList.contains '\x00' then
    refused (.stated "nul byte found in provided data")
  else match files.lookup command.directory with
    | .error cause => refused cause
    | .ok (_, .file _) => refused .notDirectory
    | .ok (place, .directory _) =>
      let state := runText deepest command.text
        (State.start { files with workingDirectory := place })
      let files := { state.files with workingDirectory := files.workingDirectory }
      .ok (⟨some (Int32.ofNat state.status)⟩, { state with files })

end Shell

end BuildTargets
