import BuildTargets.Toml.Scalar

/-!
# Reading Toml documents

A document is read into statements, members and headers, and the statements are put together to
one table. Tables grow in three ways: under a header of their own, above a header that names a
table inside, and by keys with points. Each may be given its members once.
-/

namespace BuildTargets.Toml

/-! ## Blanks -/

def skipBlanks : List Char → List Char := List.dropWhile fun c => c = ' ' || c = '\t'

/-- Takes blanks, line ends and comments off the start of a text. -/
def skipSpace (inComment : Bool) : List Char → Option (List Char)
  | [] => some []
  | '\r' :: '\n' :: rest => skipSpace false rest
  | '\n' :: rest => skipSpace false rest
  | c :: rest =>
    if inComment then if isControl c then none else skipSpace true rest
    else if c = ' ' || c = '\t' then skipSpace false rest
    else if c = '#' then skipSpace true rest
    else some (c :: rest)

/-- Takes the end of a line off a text, with blanks and a comment before it. -/
def skipLineEnd (inComment : Bool) : List Char → Option (List Char)
  | [] => some []
  | '\r' :: '\n' :: rest => some rest
  | '\n' :: rest => some rest
  | c :: rest =>
    if inComment then if isControl c then none else skipLineEnd true rest
    else if c = ' ' || c = '\t' then skipLineEnd false rest
    else if c = '#' then skipLineEnd true rest
    else none

/-! ## Tables under construction -/

/-- How a table came to be. -/
inductive Origin where
  | header
  | aboveHeader
  | pointedKey
deriving DecidableEq

/-- A part of a document under construction: a value that is complete, a table, or tables that
share one name, of which the last one can still grow. -/
inductive Node where
  | complete (value : Value)
  | table (origin : Origin) (members : List (String × Node))
  | tables (earlier : List (List (String × Node))) (last : List (String × Node))

abbrev Members := List (String × Node)

/-- Puts a part under a name, in place of the one that is there. -/
def Members.put (key : String) (node : Node) : Members → Members
  | [] => [(key, node)]
  | (other, old) :: rest =>
    if other = key then (key, node) :: rest else (other, old) :: Members.put key node rest

/-- Gives the member at some keys its value. Keys lead through tables that such keys began, and
the last of those takes the member; `began` says whether the table at hand is one. -/
def assign (value : Value) (began : Bool) : List String → Members → Option Members
  | [], _ => none
  | [key], members =>
    if began && (members.lookup key).isNone then some (members ++ [(key, .complete value)])
    else none
  | key :: keys, members =>
    match members.lookup key with
    | none => (assign value true keys []).map fun inner =>
        members ++ [(key, .table .pointedKey inner)]
    | some (.table origin inner) =>
      if origin = .header then none
      else (assign value (origin = .pointedKey) keys inner).map fun inner =>
        Members.put key (.table origin inner) members
    | some (.tables earlier last) =>
      (assign value false keys last).map fun last => Members.put key (.tables earlier last) members
    | some (.complete _) => none

def assignAll (members : Members) (assignments : List (List String × Value)) : Option Members :=
  assignments.foldlM (fun members (keys, value) => assign value true keys members) members

/-- Begins the table of a header, which `isArray` says is one of several, and fills it. -/
def openTable (isArray : Bool) (assignments : List (List String × Value)) :
    List String → Members → Option Members
  | [], _ => none
  | [key], members =>
    match isArray, members.lookup key with
    | false, none => (assignAll [] assignments).map fun inner =>
        members ++ [(key, .table .header inner)]
    | false, some (.table .aboveHeader inner) => (assignAll inner assignments).map fun inner =>
        Members.put key (.table .header inner) members
    | true, none => (assignAll [] assignments).map fun inner =>
        members ++ [(key, .tables [] inner)]
    | true, some (.tables earlier last) => (assignAll [] assignments).map fun inner =>
        Members.put key (.tables (earlier ++ [last]) inner) members
    | _, _ => none
  | key :: keys, members =>
    match members.lookup key with
    | none => (openTable isArray assignments keys []).map fun inner =>
        members ++ [(key, .table .aboveHeader inner)]
    | some (.table origin inner) => (openTable isArray assignments keys inner).map fun inner =>
        Members.put key (.table origin inner) members
    | some (.tables earlier last) => (openTable isArray assignments keys last).map fun last =>
        Members.put key (.tables earlier last) members
    | some (.complete _) => none

mutual

def Node.value : Node → Value
  | .complete value => value
  | .table _ members => .table (valuesOf members)
  | .tables earlier last => .array (tablesOf earlier ++ [.table (valuesOf last)])

def valuesOf : List (String × Node) → List (String × Value)
  | [] => []
  | (key, node) :: rest => (key, node.value) :: valuesOf rest

def tablesOf : List (List (String × Node)) → List Value
  | [] => []
  | members :: rest => .table (valuesOf members) :: tablesOf rest

end

/-! ## Values and keys -/

def readKey (chars : List Char) : Option (String × List Char) :=
  match chars with
  | '"' :: rest => (readBasic rest).map fun (text, after) => (String.ofList text, after)
  | '\'' :: rest => (readLiteral rest).map fun (text, after) => (String.ofList text, after)
  | _ =>
    let key := chars.takeWhile isBare
    if key.isEmpty then none else some (String.ofList key, chars.dropWhile isBare)

/-- Reads keys with points between them, and what follows. The fuel is above the number of
characters. -/
def readKeys : (fuel : Nat) → List Char → Option (List String × List Char)
  | 0, _ => none
  | fuel + 1, chars => do
    let (key, rest) ← readKey (skipBlanks chars)
    match skipBlanks rest with
    | '.' :: rest =>
      let (keys, after) ← readKeys fuel rest
      return (key :: keys, after)
    | rest => return ([key], rest)

/-- The deepest that brackets may be nested. -/
def deepest : Nat := 80

mutual

/-- Reads a value, and what follows. The fuel is above twice the number of characters, and
`depth` brackets may still be opened. -/
def readValue : (fuel : Nat) → (depth : Nat) → List Char → Option (Value × List Char)
  | 0, _, _ => none
  | fuel + 1, depth, chars =>
    match chars, depth with
    | '[' :: rest, depth + 1 => do
      let (elements, after) ← readElements fuel depth rest
      return (.array elements, after)
    | '{' :: rest, depth + 1 => do
      let (assignments, after) ← readInline fuel depth rest
      return (.table (valuesOf (← assignAll [] assignments)), after)
    | '"' :: _, _ =>
      (readText chars).map fun (text, after) => (.string (String.ofList text), after)
    | '\'' :: _, _ =>
      (readText chars).map fun (text, after) => (.string (String.ofList text), after)
    | _, _ =>
      let (word, after) := takeWord chars
      (valueOfWord? word).map fun value => (value, after)

def readElements : (fuel : Nat) → (depth : Nat) → List Char → Option (List Value × List Char)
  | 0, _, _ => none
  | fuel + 1, depth, chars => do
    match ← skipSpace false chars with
    | ']' :: after => return ([], after)
    | rest =>
      let (value, rest) ← readValue fuel depth rest
      match ← skipSpace false rest with
      | ']' :: after => return ([value], after)
      | ',' :: rest =>
        let (values, after) ← readElements fuel depth rest
        return (value :: values, after)
      | _ => none

/-- Reads the members of a table between braces up to the closing one. -/
def readInline : (fuel : Nat) → (depth : Nat) → List Char →
    Option (List (List String × Value) × List Char)
  | 0, _, _ => none
  | fuel + 1, depth, chars => do
    match ← skipSpace false chars with
    | '}' :: after => return ([], after)
    | rest =>
      let (keys, rest) ← readKeys fuel rest
      match rest with
      | '=' :: rest =>
        let (value, rest) ← readValue fuel depth (skipBlanks rest)
        match ← skipSpace false rest with
        | '}' :: after => return ([(keys, value)], after)
        | ',' :: rest =>
          let (assignments, after) ← readInline fuel depth rest
          return ((keys, value) :: assignments, after)
        | _ => none
      | _ => none

end

/-! ## Documents -/

structure Section where
  isArray : Bool
  keys : List String
  assignments : List (List String × Value)

/-- Reads statements to the end of a text: the members before the first header, and the sections
that follow. -/
def readStatements : (fuel : Nat) → List Char →
    Option (List (List String × Value) × List Section)
  | 0, _ => none
  | fuel + 1, chars => do
    match ← skipSpace false chars with
    | [] => return ([], [])
    | '[' :: '[' :: rest =>
      let (keys, rest) ← readKeys fuel rest
      match rest with
      | ']' :: ']' :: rest =>
        let (assignments, sections) ← readStatements fuel (← skipLineEnd false rest)
        return ([], ⟨true, keys, assignments⟩ :: sections)
      | _ => none
    | '[' :: rest =>
      let (keys, rest) ← readKeys fuel rest
      match rest with
      | ']' :: rest =>
        let (assignments, sections) ← readStatements fuel (← skipLineEnd false rest)
        return ([], ⟨false, keys, assignments⟩ :: sections)
      | _ => none
    | rest =>
      let (keys, rest) ← readKeys fuel rest
      match rest with
      | '=' :: rest =>
        let (value, rest) ← readValue fuel deepest (skipBlanks rest)
        let (assignments, sections) ← readStatements fuel (← skipLineEnd false rest)
        return ((keys, value) :: assignments, sections)
      | _ => none

/-- Reads a document. A byte order mark may stand before it. -/
def readDocument (text : String) : Option Value := do
  let chars := match text.toList with
    | '\ufeff' :: rest => rest
    | chars => chars
  let (assignments, sections) ← readStatements (2 * chars.length + 2) chars
  let members ← assignAll [] assignments
  let members ← sections.foldlM
    (fun members part => openTable part.isArray part.assignments part.keys members) members
  return .table (valuesOf members)

end BuildTargets.Toml
