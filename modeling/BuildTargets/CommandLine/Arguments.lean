import BuildTargets.Path

/-!
# Command lines

A command line holds options for the whole program, the name of a command, and the options and
operands of the command. It is read from left to right, and the first thing that is wrong with it
ends the reading, as does a question for help or for the version.
-/

namespace BuildTargets.CommandLine

/-- Everything that a command line can ask for. -/
inductive Request where
  | list (runner : Option String) (active : Option Path)
  | targets (file : Path)
  | run (file : Path) (target : String ⊕ Nat) (dryRun print : Bool)
  | included (file : Path) (line : Nat) (name : Option String) (dryRun print : Bool)
  | rerun (print : Bool)
  | lenses (file : Path)
  | config (init : Bool)
deriving Repr

/-- A request with the options for the whole program. -/
structure Invocation where
  project : Path
  config : Option Path
  verbose : Bool
  request : Request
deriving Repr

inductive Refusal where
  | usage
  | help
  | version
deriving DecidableEq, Repr

/-! ## Options -/

inductive Switch where
  | project
  | config
  | verbose
  | help
  | version
  | runner
  | active
  | line
  | name
  | dryRun
  | print
  | init
deriving DecidableEq, Repr

inductive Taken where
  | nothing
  | text
  | path
  | number
deriving DecidableEq, Repr

namespace Switch

/-- The long name of an option, behind two dashes. -/
def long : Switch → String
  | project => "project"
  | config => "config"
  | verbose => "verbose"
  | help => "help"
  | version => "version"
  | runner => "runner"
  | active => "active"
  | line => "line"
  | name => "name"
  | dryRun => "dry-run"
  | print => "print"
  | init => "init"

def short? : Switch → Option Char
  | project => some 'p'
  | verbose => some 'v'
  | help => some 'h'
  | version => some 'V'
  | _ => none

def takes : Switch → Taken
  | project => .path
  | config => .path
  | active => .path
  | runner => .text
  | name => .text
  | line => .number
  | _ => .nothing

end Switch

/-- The greatest number that an option takes. -/
def greatest : Nat := 18446744073709551615

/-- A number in decimal digits; a plus sign may stand before it. -/
def number? (text : String) : Option Nat :=
  let digits := match text.toList with
    | '+' :: rest => rest
    | chars => chars
  if digits.isEmpty || !digits.all fun c => '0' ≤ c && c ≤ '9' then none
  else
    let value := digits.foldl (fun value c => 10 * value + (c.toNat - '0'.toNat)) 0
    if value ≤ greatest then some value else none

def Taken.accepts (taken : Taken) (text : String) : Bool :=
  match taken with
  | nothing => false
  | .text => true
  | path => text ≠ ""
  | number => (number? text).isSome

/-! ## Commands -/

inductive Verb where
  | list
  | targets
  | run
  | included
  | rerun
  | lenses
  | config
deriving DecidableEq, Repr

namespace Verb

def all : List Verb := [list, targets, run, included, rerun, lenses, config]

def text : Verb → String
  | list => "list"
  | targets => "targets"
  | run => "run"
  | included => "included"
  | rerun => "rerun"
  | lenses => "lenses"
  | config => "config"

def ofText? (text : String) : Option Verb := all.find? fun verb => verb.text == text

def switches : Verb → List Switch
  | list => [.runner, .active]
  | targets => []
  | run => [.line, .dryRun, .print]
  | included => [.line, .name, .dryRun, .print]
  | rerun => [.print]
  | lenses => []
  | config => [.init]

def operands : Verb → List Taken
  | targets => [.path]
  | run => [.path, .text]
  | included => [.path]
  | lenses => [.path]
  | _ => []

end Verb

/-! ## Reading -/

/-- What has been read of a command line: the options before the command and after it, each with
its value, the operands, an option that waits for its value, and whether only operands follow. -/
structure Progress where
  verb : Option Verb
  before : List (Switch × String)
  after : List (Switch × String)
  operands : List String
  waiting : Option Switch
  onlyOperands : Bool

namespace Progress

def start : Progress := ⟨none, [], [], [], none, false⟩

def allowed (progress : Progress) : List Switch :=
  [.project, .config, .verbose, .help] ++
    match progress.verb with
    | none => [.version]
    | some verb => verb.switches

/-- Takes an option with its value. An option stands only once on each side of the command. -/
def take (progress : Progress) (switch : Switch) (value : String) : Except Refusal Progress :=
  let given := if progress.verb.isNone then progress.before else progress.after
  if given.any (fun item => item.1 = switch) then .error .usage
  else if switch.takes ≠ .nothing ∧ switch.takes.accepts value = false then .error .usage
  else if progress.verb.isNone then
    .ok { progress with before := (switch, value) :: progress.before, waiting := none }
  else .ok { progress with after := (switch, value) :: progress.after, waiting := none }

/-- Takes an option without a value, or waits for the value that it needs. -/
def takeAlone (progress : Progress) (switch : Switch) : Except Refusal Progress :=
  match switch, switch.takes with
  | .help, _ => .error .help
  | .version, _ => .error .version
  | _, .nothing => progress.take switch ""
  | _, _ => .ok { progress with waiting := some switch }

/-- Takes an option that was written with its long name, and a value if there is an `=`. -/
def takeLong (progress : Progress) (written : List Char) : Except Refusal Progress :=
  let name := String.ofList (written.takeWhile (· != '='))
  match progress.allowed.find? (fun switch => switch.long == name),
      written.dropWhile (· != '=') with
  | none, _ => .error .usage
  | some switch, [] => progress.takeAlone switch
  | some switch, _ :: value =>
    if switch.takes = .nothing then .error .usage
    else progress.take switch (String.ofList value)

/-- Takes options that were written with their letters; what follows the letter of one that needs
a value is that value. -/
def takeShort (progress : Progress) : List Char → Except Refusal Progress
  | [] => .ok progress
  | letter :: rest =>
    match progress.allowed.find? fun switch => switch.short? == some letter with
    | none => .error .usage
    | some switch =>
      if switch.takes = .nothing then
        match progress.takeAlone switch with
        | .ok progress => progress.takeShort rest
        | .error refusal => .error refusal
      else match rest with
        | [] => progress.takeAlone switch
        | '=' :: value => progress.take switch (String.ofList value)
        | value => progress.take switch (String.ofList value)

def takeOperand (progress : Progress) (text : String) : Except Refusal Progress :=
  match progress.verb with
  | none =>
    if progress.onlyOperands then .error .usage
    else match Verb.ofText? text with
      | some verb => .ok { progress with verb := some verb }
      | none => .error .usage
  | some verb =>
    match verb.operands[progress.operands.length]? with
    | none => .error .usage
    | some taken =>
      if taken.accepts text then .ok { progress with operands := progress.operands ++ [text] }
      else .error .usage

def isSwitch (text : String) : Bool := text.toList.head? == some '-' && text ≠ "-"

def read (progress : Progress) (argument : String) : Except Refusal Progress :=
  match progress.waiting, argument.toList with
  | some switch, _ => if isSwitch argument then .error .usage else progress.take switch argument
  | none, ['-', '-'] =>
    if progress.onlyOperands then progress.takeOperand argument
    else .ok { progress with onlyOperands := true }
  | none, '-' :: '-' :: written =>
    if progress.onlyOperands then progress.takeOperand argument else progress.takeLong written
  | none, '-' :: letter :: letters =>
    if progress.onlyOperands then progress.takeOperand argument
    else progress.takeShort (letter :: letters)
  | none, _ => progress.takeOperand argument

/-- The value of an option; one behind the command counts before one in front of it. -/
def value? (progress : Progress) (switch : Switch) : Option String :=
  (progress.after ++ progress.before).lookup switch

def isGiven (progress : Progress) (switch : Switch) : Bool := (progress.value? switch).isSome

/-- The request of a command whose arguments have all been read. -/
def request (progress : Progress) (verb : Verb) : Except Refusal Request :=
  let line := (progress.value? .line).bind number?
  let dryRun := progress.isGiven .dryRun
  let print := progress.isGiven .print
  match verb, progress.operands, line with
  | .list, _, _ =>
    .ok (.list (progress.value? .runner) ((progress.value? .active).map Path.mk))
  | .targets, file :: _, _ => .ok (.targets ⟨file⟩)
  | .run, [file], some line => .ok (.run ⟨file⟩ (.inr line) dryRun print)
  | .run, [file, name], none => .ok (.run ⟨file⟩ (.inl name) dryRun print)
  | .included, file :: _, some line =>
    .ok (.included ⟨file⟩ line (progress.value? .name) dryRun print)
  | .rerun, _, _ => .ok (.rerun print)
  | .lenses, file :: _, _ => .ok (.lenses ⟨file⟩)
  | .config, _, _ => .ok (.config (progress.isGiven .init))
  | _, _, _ => .error .usage

/-- The invocation of a command line that has been read to its end. -/
def finish (progress : Progress) : Except Refusal Invocation :=
  match progress.waiting, progress.verb with
  | none, some verb =>
    match progress.request verb with
    | .ok request => .ok {
        project := ((progress.value? .project).map Path.mk).getD ⟨"."⟩
        config := (progress.value? .config).map Path.mk
        verbose := progress.isGiven .verbose
        request := request }
    | .error refusal => .error refusal
  | _, _ => .error .usage

end Progress

/-- The arguments behind the command `help` name a command, or are none. -/
def readHelp : List String → Refusal
  | [] => .help
  | [name] => if (Verb.ofText? name).isSome || name = "help" then .help else .usage
  | _ => .usage

def readFrom (progress : Progress) : List String → Except Refusal Invocation
  | [] => progress.finish
  | argument :: rest =>
    if argument = "help" ∧ progress.verb = none ∧ progress.waiting = none ∧
        progress.onlyOperands = false then
      .error (readHelp rest)
    else match progress.read argument with
      | .ok progress => readFrom progress rest
      | .error refusal => .error refusal

def readArguments (arguments : List String) : Except Refusal Invocation :=
  readFrom .start arguments

end BuildTargets.CommandLine
