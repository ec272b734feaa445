import BuildTargets.Shell.Expansion

/-!
# Small commands

The commands that the shell here knows. They work on the state of the shell; each ends with a
status, and complains in the usual words where something is wrong.
-/

namespace BuildTargets.Shell

/-! ## Printing -/

/-- The character that a letter behind a backslash stands for. -/
def escaped? : Char → Option Char
  | 'n' => some '\n'
  | 't' => some '\t'
  | 'r' => some '\r'
  | 'a' => some '\x07'
  | 'b' => some '\x08'
  | 'f' => some '\x0c'
  | 'v' => some '\x0b'
  | '\\' => some '\\'
  | _ => none

/-- A text with the escapes that `echo` knows; nothing follows `\c`. -/
def unescape : List Char → List Char × Bool
  | '\\' :: 'c' :: _ => ([], true)
  | '\\' :: c :: rest =>
    let (later, stopped) := unescape rest
    match escaped? c with
    | some d => (d :: later, stopped)
    | none => ('\\' :: c :: later, stopped)
  | c :: rest =>
    let (later, stopped) := unescape rest
    (c :: later, stopped)
  | [] => ([], false)

def echoed (words : List String) : String :=
  let (silent, words) := match words with
    | "-n" :: rest => (true, rest)
    | _ => (false, words)
  let (text, stopped) := unescape (String.intercalate " " words).toList
  String.ofList (if silent || stopped then text else text ++ ['\n'])

/-- One round of a format: what it makes of some words, and the words left over. -/
def formatOnce : List Char → List String → List Char × List String
  | '%' :: '%' :: rest, words =>
    let (text, words) := formatOnce rest words
    ('%' :: text, words)
  | '%' :: c :: rest, words =>
    let word := words.headD (if c = 'd' || c = 'i' then "0" else "")
    let (text, words) := formatOnce rest words.tail
    ((if c = 'b' then (unescape word.toList).1 else word.toList) ++ text, words)
  | '\\' :: c :: rest, words =>
    let (text, words) := formatOnce rest words
    match escaped? c with
    | some d => (d :: text, words)
    | none => ('\\' :: c :: text, words)
  | c :: rest, words =>
    let (text, words) := formatOnce rest words
    (c :: text, words)
  | [], words => ([], words)

/-- A format, used again while there are words left; `rounds` is above their number. -/
def formatAll (format : List Char) : (rounds : Nat) → List String → List Char
  | 0, _ => []
  | rounds + 1, words =>
    let (text, left) := formatOnce format words
    if left.isEmpty || left.length = words.length then text
    else text ++ formatAll format rounds left

/-! ## Files -/

def cat (state : State) (names : List String) : State :=
  (if names.isEmpty then ["-"] else names).foldl (fun state name =>
    if name = "-" then { state.send state.outSink state.input with input := .empty }
    else match state.files.read ⟨name⟩ with
      | .ok content => state.send state.outSink content
      | .error cause => state.failed 1 ("cat: " ++ name ++ ": " ++ reason cause))
    (state.ended 0)

/-- Changes a file system for each of some names, and complains where that fails. -/
def forEach (command complaint : String) (state : State)
    (change : FileSystem → Path → Except FileFault Unit × FileSystem) (names : List String) :
    State :=
  names.foldl (fun state name =>
    match change state.files ⟨name⟩ with
    | (.ok (), files) => { state with files }
    | (.error cause, files) =>
      { state with files }.failed 1
        (command ++ ": " ++ complaint ++ " '" ++ name ++ "': " ++ reason cause))
    (state.ended 0)

/-- The path that a file goes to: into a directory, it keeps its name. -/
def goal (files : FileSystem) (source target : Path) : Path :=
  if files.isDirectory target then target.join ⟨source.fileName?.getD ""⟩ else target

/-- Copies a file, and takes the source away if it is moved. -/
def copy (command : String) (moved : Bool) (state : State) (source target : Path) : State :=
  match state.files.read source with
  | .error cause =>
    state.failed 1 (command ++ ": cannot stat '" ++ source.text ++ "': " ++ reason cause)
  | .ok content =>
    match state.files.write (goal state.files source target) content with
    | (.error cause, _) => state.failed 1 (command ++ ": cannot create regular file '" ++
        target.text ++ "': " ++ reason cause)
    | (.ok (), files) =>
      { state with files := if moved then (files.remove source).2 else files }.ended 0

/-- The names in a directory that do not begin with a point, in order. -/
def namesIn (entry : Entry) : List String :=
  ((entry.entries.map Prod.fst).filter fun name => !name.startsWith ".").mergeSort fun a b =>
    !decide (b < a)

def listed (state : State) (names : List String) : State :=
  names.foldl (fun state name =>
    match state.files.lookup ⟨name⟩ with
    | .ok (_, .file _) => state.print (name ++ "\n")
    | .ok (_, entry) => state.print (String.join ((namesIn entry).map (· ++ "\n")))
    | .error cause => state.failed 2 ("ls: cannot access '" ++ name ++ "': " ++ reason cause))
    (state.ended 0)

def counted (option : String) (bytes : ByteArray) : Nat :=
  match option with
  | "-c" => bytes.size
  | "-l" => (bytes.toList.filter (· == 10)).length
  | _ => ((textOf bytes).split Char.isWhitespace).toList.filter (!·.isEmpty) |>.length

/-! ## Conditions -/

def number? (text : String) : Option Int := text.toInt?

def compares (name a b : String) : Bool :=
  match number? a, number? b with
  | some a, some b =>
    match name with
    | "-eq" => a == b
    | "-ne" => a != b
    | "-lt" => decide (a < b)
    | "-le" => decide (a ≤ b)
    | "-gt" => decide (b < a)
    | "-ge" => decide (b ≤ a)
    | _ => false
  | _, _ => false

def condition (files : FileSystem) : List String → Bool
  | [a] => a ≠ ""
  | ["!", a] => a = ""
  | ["-e", a] => files.contains ⟨a⟩
  | ["-f", a] => files.isFile ⟨a⟩
  | ["-d", a] => files.isDirectory ⟨a⟩
  | ["-r", a] => files.contains ⟨a⟩
  | ["-w", a] => files.contains ⟨a⟩
  | ["-x", a] => files.isDirectory ⟨a⟩
  | ["-s", a] =>
    match files.entry? ⟨a⟩ with
    | some (.file content) => content.size != 0
    | some (.directory _) => true
    | none => false
  | ["-n", a] => a ≠ ""
  | ["-z", a] => a = ""
  | [a, "=", b] => a = b
  | [a, "!=", b] => a ≠ b
  | "!" :: rest => !condition files rest
  | [a, name, b] => compares name a b
  | _ => false

/-! ## The shell itself -/

def readLine (state : State) (name : String) : State :=
  let bytes := state.input.toList
  let line := bytes.takeWhile (· != 10)
  let rest := bytes.drop (line.length + 1)
  let text := String.ofList (Text.trim (textOf ⟨line.toArray⟩).toList)
  { state.assign name text with input := ⟨rest.toArray⟩ }.ended
    (if line.length < bytes.length then 0 else 1)

/-- Leaves the script with a status, which counts modulo 256. -/
def leave (name : String) (state : State) : List String → State
  | [] => { state with left := true }
  | text :: _ =>
    let digits := text.toList
    if !digits.isEmpty && digits.all Char.isDigit then
      let status := digits.foldl (fun value c => 10 * value + (c.toNat - '0'.toNat)) 0
      { state with status := status % 256, left := true }
    else { state.refused 2 (name ++ ": Illegal number: " ++ text) with left := true }

def changeDirectory (state : State) (name : String) : State :=
  match state.files.lookup ⟨name⟩ with
  | .ok (place, .directory _) =>
    { state with files := { state.files with workingDirectory := place } }.ended 0
  | _ => state.refused 2 ("cd: can't cd to " ++ name)

/-- A command that the shell does not know; files cannot be executed. -/
def unknown (state : State) (name : String) : State :=
  if name.contains '/' && state.files.contains ⟨name⟩ then
    state.refused 126 (name ++ ": Permission denied")
  else state.refused 127 (name ++ ": not found")

def runTool (state : State) : List String → State
  | [] => state.ended 0
  | "true" :: _ => state.ended 0
  | "false" :: _ => state.ended 1
  | "echo" :: words => (state.print (echoed words)).ended 0
  | "printf" :: format :: words =>
    (state.print (String.ofList (formatAll format.toList (words.length + 1) words))).ended 0
  | "pwd" :: _ =>
    (state.print ((FileSystem.pathTo state.files.workingDirectory).text ++ "\n")).ended 0
  | "cat" :: names => cat state names
  | "ls" :: "-1" :: names => listed state (if names.isEmpty then ["."] else names)
  | "ls" :: names => listed state (if names.isEmpty then ["."] else names)
  | ["wc", option] => (state.print (toString (counted option state.input) ++ "\n")).ended 0
  | ["wc", option, name] =>
    match state.files.read ⟨name⟩ with
    | .ok content =>
      (state.print (toString (counted option content) ++ " " ++ name ++ "\n")).ended 0
    | .error cause => state.failed 1 ("wc: " ++ name ++ ": " ++ reason cause)
  | ["cp", source, target] => copy "cp" false state ⟨source⟩ ⟨target⟩
  | ["mv", source, target] => copy "mv" true state ⟨source⟩ ⟨target⟩
  | "touch" :: names =>
    forEach "touch" "cannot touch" state (fun files path =>
      if files.contains path then (.ok (), files) else files.write path .empty) names
  | "mkdir" :: "-p" :: names =>
    forEach "mkdir" "cannot create directory" state FileSystem.makeDirectories names
  | "mkdir" :: names =>
    forEach "mkdir" "cannot create directory" state FileSystem.makeDirectory names
  | "rm" :: "-rf" :: names =>
    forEach "rm" "cannot remove" state (fun files path => (.ok (), (files.remove path).2)) names
  | "rm" :: "-r" :: names => forEach "rm" "cannot remove" state FileSystem.remove names
  | "rm" :: "-f" :: names =>
    forEach "rm" "cannot remove" state (fun files path =>
      if files.isDirectory path then (.error .isDirectory, files)
      else (.ok (), (files.remove path).2)) names
  | "rm" :: names =>
    forEach "rm" "cannot remove" state (fun files path =>
      if files.isDirectory path then (.error .isDirectory, files) else files.remove path) names
  | "sleep" :: _ => state.ended 0
  | "test" :: words => state.ended (if condition state.files words then 0 else 1)
  | "[" :: words =>
    if words.getLast? = some "]" then
      state.ended (if condition state.files words.dropLast then 0 else 1)
    else state.refused 2 "[: missing ]"
  | name :: _ => unknown state name

/-- Runs a command. `inner` runs the text of a script. -/
def runWords (inner : String → State → State) (state : State) : List String → State
  | ":" :: _ => state.ended 0
  | "exit" :: words => leave "exit" state words
  | "return" :: words => leave "return" state words
  | "read" :: name :: _ => readLine state name
  | ["cd"] => state.ended 0
  | "cd" :: name :: _ => changeDirectory state name
  | "set" :: "-e" :: _ => { state with strict := true }.ended 0
  | "set" :: _ => state.ended 0
  | "export" :: words => words.foldl (fun state word =>
      match assignment? (word.toList.map fun c => .char c false) with
      | some (name, rest) => state.assign name (fieldText (rest.filterMap fun glyph =>
          match glyph with
          | .char c quoted => some (c, quoted)
          | _ => none))
      | none => state) (state.ended 0)
  | "unset" :: names => names.foldl (fun state name => state.assign name "") (state.ended 0)
  | "eval" :: words => inner (String.intercalate " " words) (state.ended 0)
  | ["exec"] => state.ended 0
  | "exec" :: words => { runTool state words with left := true }
  | "sh" :: "-c" :: text :: _ =>
    state.isolated (inner text { state.ended 0 with values := [], strict := false })
  | words => runTool state words

end BuildTargets.Shell
