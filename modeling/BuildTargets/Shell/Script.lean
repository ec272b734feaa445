import BuildTargets.Shell.Token

/-!
# Shell scripts

A script is a list of steps, each linked to the one before it: taken in any case, only if that
one ended well, or only if it did not. A step is a pipeline of jobs, and a job is a simple
command, a group of steps, a choice or a loop over words.
-/

namespace BuildTargets.Shell

inductive Link where
  | always
  | ifWell
  | ifNot
deriving DecidableEq, Repr

/-- A stream of a job, what happens to it, and the file for that. -/
structure Redirection where
  stream : Char
  route : Route
  file : Word
deriving DecidableEq, Repr

mutual

/-- A job. An isolated group changes nothing but files. -/
inductive Job where
  | simple (words : List Word) (redirections : List Redirection)
  | group (isolated : Bool) (body : Script) (redirections : List Redirection)
  | choice (condition body other : Script) (redirections : List Redirection)
  | loop (name : String) (words : List Word) (body : Script) (redirections : List Redirection)

/-- Jobs, each of which writes what the next one reads. -/
inductive Pipeline where
  | last (job : Job)
  | into (job : Job) (rest : Pipeline)

/-- Steps; a step that is negated ends well if its pipeline does not. -/
inductive Script where
  | stop
  | step (link : Link) (negated : Bool) (pipeline : Pipeline) (rest : Script)

end

instance : Inhabited Script := ⟨.stop⟩

def Script.isEmpty : Script → Bool
  | stop => true
  | step .. => false

/-! ## Reading -/

def plainText? (word : Word) : Option String :=
  (word.mapM fun glyph =>
    match glyph with
    | Glyph.char c false => some c
    | _ => none).map String.ofList

/-- The words that end a list of steps where a command could begin. -/
def closers : List String := ["\x7d", "then", "elif", "else", "fi", "do", "done"]

/-- What is said about a token that is in the wrong place. -/
def fault : List Token → ScriptFault
  | .word word :: _ =>
    match plainText? word with
    | some text =>
      if closers.contains text then .unexpected ("\"" ++ text ++ "\"") else .unexpected "word"
    | none => .unexpected "word"
  | .sign .newline :: _ => .unexpected "newline"
  | .sign sign :: _ => .unexpected ("\"" ++ sign.text ++ "\"")
  | .route .. :: _ => .unexpected "redirection"
  | [] => .ended none

/-- What follows a given word without quotes. -/
def expectWord (text : String) (tokens : List Token) : Except ScriptFault (List Token) :=
  match tokens with
  | .word word :: rest => if plainText? word = some text then .ok rest else .error (fault tokens)
  | [] => .error (.ended (some text))
  | _ => .error (fault tokens)

def skipNewlines : List Token → List Token
  | .sign .newline :: rest => skipNewlines rest
  | tokens => tokens

/-- The words and redirections that tokens begin with, and what follows. -/
def readWords : List Token → Except ScriptFault (List Word × List Redirection × List Token)
  | .word word :: rest => do
    let (words, redirections, rest) ← readWords rest
    return (word :: words, redirections, rest)
  | .route stream (.toStream number) :: rest => do
    let (words, redirections, rest) ← readWords rest
    return (words, ⟨stream, .toStream number, []⟩ :: redirections, rest)
  | .route stream route :: .word file :: rest => do
    let (words, redirections, rest) ← readWords rest
    return (words, ⟨stream, route, file⟩ :: redirections, rest)
  | .route _ _ :: rest => .error (fault rest)
  | rest => .ok ([], [], rest)

def readRedirections (tokens : List Token) :
    Except ScriptFault (List Redirection × List Token) := do
  match ← readWords tokens with
  | ([], redirections, rest) => return (redirections, rest)
  | _ => .error (fault tokens)

mutual

/-- Reads steps up to the end or to what ends a list of steps. The fuel is above the number of
tokens, as below. -/
def readSteps : (fuel : Nat) → Link → List Token → Except ScriptFault (Script × List Token)
  | 0, _, tokens => .error (fault tokens)
  | fuel + 1, link, tokens => do
    let tokens := skipNewlines tokens
    let ends := match tokens with
      | [] => true
      | .sign .closed :: _ => true
      | .word word :: _ => (plainText? word).any closers.contains
      | _ => false
    if ends then
      if link = .always then return (.stop, tokens) else .error (fault tokens)
    else
      let (negated, tokens) := match tokens with
        | .word word :: rest => if plainText? word = some "!" then (true, rest) else (false, tokens)
        | _ => (false, tokens)
      let (pipeline, rest) ← readPipeline fuel tokens
      let (next, rest) : Link × List Token := match rest with
        | .sign .both :: rest => (.ifWell, rest)
        | .sign .either :: rest => (.ifNot, rest)
        | .sign .semicolon :: rest => (.always, rest)
        | rest => (.always, rest)
      let (later, rest) ← readSteps fuel next rest
      return (.step link negated pipeline later, rest)

/-- Reads steps, of which there is one at least. -/
def readBody : (fuel : Nat) → List Token → Except ScriptFault (Script × List Token)
  | 0, tokens => .error (fault tokens)
  | fuel + 1, tokens => do
    let (script, rest) ← readSteps fuel .always tokens
    if script.isEmpty then .error (fault rest) else return (script, rest)

def readPipeline : (fuel : Nat) → List Token → Except ScriptFault (Pipeline × List Token)
  | 0, tokens => .error (fault tokens)
  | fuel + 1, tokens => do
    let (job, rest) ← readJob fuel tokens
    match rest with
    | .sign .pipe :: rest =>
      let (pipeline, rest) ← readPipeline fuel (skipNewlines rest)
      return (.into job pipeline, rest)
    | .sign .opened :: _ => .error (fault rest)
    | _ => return (.last job, rest)

def readBranches : (fuel : Nat) → Script → List Token → Except ScriptFault (Job × List Token)
  | 0, _, tokens => .error (fault tokens)
  | fuel + 1, condition, tokens => do
    let (body, rest) ← readBody fuel (← expectWord "then" tokens)
    match rest with
    | .word word :: behind =>
      match plainText? word with
      | some "elif" =>
        let (next, rest) ← readBody fuel behind
        let (job, rest) ← readBranches fuel next rest
        match job with
        | .choice inner innerBody other redirections =>
          let later : Script := .step .always false (.last (.choice inner innerBody other [])) .stop
          return (.choice condition body later redirections, rest)
        | _ => .error (fault rest)
      | some "else" =>
        let (other, rest) ← readBody fuel behind
        let (redirections, rest) ← readRedirections (← expectWord "fi" rest)
        return (.choice condition body other redirections, rest)
      | some "fi" =>
        let (redirections, rest) ← readRedirections behind
        return (.choice condition body .stop redirections, rest)
      | _ => .error (fault rest)
    | [] => .error (.ended (some "fi"))
    | _ => .error (fault rest)

def readJob : (fuel : Nat) → List Token → Except ScriptFault (Job × List Token)
  | 0, tokens => .error (fault tokens)
  | fuel + 1, tokens => do
    match tokens with
    | .sign .opened :: rest =>
      let (body, rest) ← readBody fuel rest
      match rest with
      | .sign .closed :: rest =>
        let (redirections, rest) ← readRedirections rest
        return (.group true body redirections, rest)
      | [] => .error (.ended (some ")"))
      | _ => .error (fault rest)
    | .word word :: rest =>
      match plainText? word with
      | some "\x7b" =>
        let (body, rest) ← readBody fuel rest
        let (redirections, rest) ← readRedirections (← expectWord "\x7d" rest)
        return (.group false body redirections, rest)
      | some "if" =>
        let (condition, rest) ← readBody fuel rest
        readBranches fuel condition rest
      | some "for" =>
        match rest with
        | .word name :: rest =>
          let rest ← expectWord "in" rest
          let (words, _, rest) ← readWords rest
          let rest := match rest with
            | .sign .semicolon :: rest => rest
            | rest => rest
          let (body, rest) ← readBody fuel (← expectWord "do" (skipNewlines rest))
          let (redirections, rest) ← readRedirections (← expectWord "done" rest)
          return (.loop ((plainText? name).getD "") words body redirections, rest)
        | _ => .error (fault rest)
      | _ =>
        let (words, redirections, rest) ← readWords (.word word :: rest)
        return (.simple words redirections, rest)
    | .route _ _ :: _ =>
      let (words, redirections, rest) ← readWords tokens
      return (.simple words redirections, rest)
    | _ => .error (fault tokens)

end

def readScript (text : String) : Except ScriptFault Script := do
  let tokens ← tokens text
  match ← readSteps (4 * tokens.length + 4) .always tokens with
  | (script, []) => return script
  | (_, rest) => .error (fault rest)

end BuildTargets.Shell
