import StatusEffects.Toml.Number
import StatusEffects.Toml.Quoted

/-!
TOML documents: their statements, and the table that the statements build up one after the other.
-/

set_option autoImplicit false

namespace StatusEffects.Toml

/-! ### Keys -/

def skipBlanks (cs : List Char) : List Char := cs.dropWhile isBlank

def isKeyChar (c : Char) : Bool := c.isAlphanum || c = '_' || c = '-'

private def readKeyPart (cs : List Char) : Option (String × List Char) :=
  match cs with
  | '"' :: _ | '\'' :: _ => readLineText cs
  | _ =>
    match cs.takeWhile isKeyChar with
    | [] => none
    | name => some (String.ofList name, cs.dropWhile isKeyChar)

/-- A key has fewer parts than this, and a value fewer brackets around it. -/
def depthLimit : Nat := 80

structure Key where
  path : List String
  last : String

private def readKeyWithin : Nat → List Char → Option (Key × List Char)
  | 0, _ => none
  | parts + 1, cs => do
    let (name, cs) ← readKeyPart (skipBlanks cs)
    match skipBlanks cs with
    | '.' :: rest => do
      let (key, rest) ← readKeyWithin parts rest
      return (⟨name :: key.path, key.last⟩, rest)
    | rest => return (⟨[], name⟩, rest)

def readKey : List Char → Option (Key × List Char) := readKeyWithin (depthLimit - 1)

/-! ### Values -/

/-- The text after blanks, line ends and comments; `comment` says whether one has begun. -/
def skipLines : (comment : Bool) → List Char → List Char
  | _, '\n' :: rest => skipLines false rest
  | _, '\r' :: '\n' :: rest => skipLines false rest
  | false, '#' :: rest => skipLines true rest
  | false, c :: rest => if isBlank c then skipLines false rest else c :: rest
  | true, c :: rest => if isPlain c then skipLines true rest else c :: rest
  | _, [] => []

mutual

private def readValue : (fuel depth : Nat) → List Char → Option (Toml × List Char)
  | 0, _, _ => none
  | fuel + 1, depth, cs =>
    match cs with
    | '[' :: rest =>
      if depth + 1 < depthLimit then
        (readItems fuel (depth + 1) rest).map fun (items, rest) => (.array items, rest)
      else none
    | '\x7b' :: rest =>
      if depth + 1 < depthLimit then
        match skipBlanks rest with
        | '\x7d' :: rest => some (.table .inline [], rest)
        | rest =>
          (readEntries fuel (depth + 1) [] rest).map fun (entries, rest) =>
            (.table .inline entries, rest)
      else none
    | 't' :: 'r' :: 'u' :: 'e' :: rest => some (.bool true, rest)
    | 'f' :: 'a' :: 'l' :: 's' :: 'e' :: rest => some (.bool false, rest)
    | '"' :: _ | '\'' :: _ => (readText cs).map fun (text, rest) => (.str text, rest)
    | cs =>
      match readDateTime cs with
      | some found => some found
      | none => readNumber cs

private def readItems : (fuel depth : Nat) → List Char → Option (List Toml × List Char)
  | 0, _, _ => none
  | fuel + 1, depth, cs =>
    match skipLines false cs with
    | ']' :: rest => some ([], rest)
    | cs => do
      let (item, cs) ← readValue fuel depth cs
      match skipLines false cs with
      | ']' :: rest => return ([item], rest)
      | ',' :: rest => do
        let (items, rest) ← readItems fuel depth rest
        return (item :: items, rest)
      | _ => none

private def readEntries :
    (fuel depth : Nat) → Entries → List Char → Option (Entries × List Char)
  | 0, _, _, _ => none
  | fuel + 1, depth, entries, cs => do
    let (key, cs) ← readKey cs
    match cs with
    | '=' :: cs => do
      let (value, cs) ← readValue fuel depth (skipBlanks cs)
      let entries ← entries.assign? value key.last key.path
      match skipBlanks cs with
      | '\x7d' :: rest => return (entries, rest)
      | ',' :: rest => readEntries fuel depth entries rest
      | _ => none
    | _ => none

end

/-! ### Statements -/

inductive Statement where
  /-- Gives a key of the current table a value. -/
  | assign (key : Key) (value : Toml)
  /-- Begins a table, which becomes the current one. -/
  | header (key : Key)
  /-- Adds a table to a list of tables, which becomes the current one. -/
  | listHeader (key : Key)

private def finishLine? (cs : List Char) : Option (List Char) :=
  let cs := match skipBlanks cs with
    | '#' :: rest => rest.dropWhile isPlain
    | rest => rest
  match cs with
  | [] => some []
  | cs => afterLineEnd? cs

private def readStatement (cs : List Char) : Option (Statement × List Char) :=
  match cs with
  | '[' :: '[' :: rest => do
    match ← readKey rest with
    | (key, ']' :: ']' :: rest) => some (.listHeader key, rest)
    | _ => none
  | '[' :: rest => do
    match ← readKey rest with
    | (key, ']' :: rest) => some (.header key, rest)
    | _ => none
  | cs => do
    match ← readKey cs with
    | (key, '=' :: rest) => do
      let rest := skipBlanks rest
      let (value, rest) ← readValue (2 * rest.length + 1) 0 rest
      some (.assign key value, rest)
    | _ => none

private def readStatements : Nat → List Char → Option (List Statement)
  | 0, _ => none
  | fuel + 1, cs =>
    match skipLines false cs with
    | [] => some []
    | cs => do
      let (statement, cs) ← readStatement cs
      return statement :: (← readStatements fuel (← finishLine? cs))

def statements? (text : String) : Option (List Statement) :=
  let cs := match text.toList with
    | '\uFEFF' :: rest => rest
    | cs => cs
  readStatements (cs.length + 1) cs

/-! ### The table of a document -/

structure Draft where
  entries : Entries
  current : List String

/-- Takes a statement; it may not define what is defined already. -/
def Draft.take? (draft : Draft) : Statement → Option Draft
  | .assign key value =>
    (draft.entries.descend? (·.assign? value key.last key.path) draft.current).map
      fun entries => { draft with entries := entries }
  | .header key =>
    (draft.entries.descend? (·.begin? key.last) key.path).map
      fun entries => ⟨entries, key.path ++ [key.last]⟩
  | .listHeader key =>
    (draft.entries.descend? (·.append? key.last) key.path).map
      fun entries => ⟨entries, key.path ++ [key.last]⟩

def ofStatements? (statements : List Statement) : Option Toml :=
  (statements.foldlM Draft.take? ⟨[], []⟩).map fun draft => .table .header draft.entries

def parse? (text : String) : Option Toml := (statements? text).bind ofStatements?

end StatusEffects.Toml
