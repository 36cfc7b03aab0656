import StatusEffects.Json.Source

/-!
TOML values and the tables that a document builds up.

A table remembers how it came to be, since that decides what may still be added to it: a header may
give entries to a table that other headers only imply, a dotted key may add to a table that dotted
keys made, and an inline table is complete.
-/

set_option autoImplicit false

namespace StatusEffects

open Json (Source)

/-- How a table came to be. -/
inductive Toml.Origin where
  /-- It has a header of its own. -/
  | header
  /-- Headers of tables below name it. -/
  | implied
  /-- Dotted keys name it. -/
  | dotted
  /-- It is written between braces. -/
  | inline
deriving DecidableEq, Repr

inductive Toml where
  | str (text : String)
  | int (value : Int)
  | float (value : Float)
  | bool (value : Bool)
  | dateTime (text : String)
  | array (items : List Toml)
  | table (origin : Toml.Origin) (entries : List (String × Toml))
  /-- The tables that headers in double brackets add one by one; entries go to the last one. -/
  | tables (items : List (List (String × Toml)))

namespace Toml

/-- The entries of a table in the order of their first mention, each key once. -/
abbrev Entries := List (String × Toml)

def Entries.get? (entries : Entries) (key : String) : Option Toml :=
  (entries.find? fun entry => entry.1 = key).map Prod.snd

def Entries.put (entries : Entries) (key : String) (value : Toml) : Entries :=
  if (entries.get? key).isSome then
    entries.map fun entry => if entry.1 = key then (key, value) else entry
  else entries ++ [(key, value)]

/-! ### Building tables up -/

def changeLast? (change : Entries → Option Entries) (items : List Entries) :
    Option (List Entries) :=
  match items.getLast? with
  | none => none
  | some last => (change last).map fun last => items.dropLast ++ [last]

/-- Changes the table that a header leads to. Tables on the way that are not there come to be
implied. -/
def Entries.descend? (change : Entries → Option Entries) : List String → Entries → Option Entries
  | [], entries => change entries
  | key :: path, entries =>
    match entries.get? key with
    | none => (descend? change path []).map fun sub => entries.put key (.table .implied sub)
    | some (.table .inline _) => none
    | some (.table origin sub) =>
      (descend? change path sub).map fun sub => entries.put key (.table origin sub)
    | some (.tables items) =>
      (changeLast? (descend? change path) items).map fun items => entries.put key (.tables items)
    | some _ => none

/-- Begins the table of a header, which must not have begun before. -/
def Entries.begin? (key : String) (entries : Entries) : Option Entries :=
  match entries.get? key with
  | none => some (entries.put key (.table .header []))
  | some (.table .implied sub) => some (entries.put key (.table .header sub))
  | some _ => none

def Entries.append? (key : String) (entries : Entries) : Option Entries :=
  match entries.get? key with
  | none => some (entries.put key (.tables [[]]))
  | some (.tables items) => some (entries.put key (.tables (items ++ [[]])))
  | some _ => none

/-- Gives a new dotted key a value. The table it adds to must have been made by dotted keys too. -/
def Entries.assign? (value : Toml) (last : String) : List String → Entries → Option Entries
  | [], entries => if (entries.get? last).isSome then none else some (entries.put last value)
  | key :: path, entries =>
    match entries.get? key, path with
    | none, path =>
      (assign? value last path []).map fun sub => entries.put key (.table .dotted sub)
    | some (.table .dotted sub), path =>
      (assign? value last path sub).map fun sub => entries.put key (.table .dotted sub)
    | some (.table .implied sub), next :: path =>
      (assign? value last (next :: path) sub).map fun sub => entries.put key (.table .implied sub)
    | some (.tables items), next :: path =>
      (changeLast? (assign? value last (next :: path)) items).map fun items =>
        entries.put key (.tables items)
    | some _, _ => none

/-! ### Decoding -/

/-- The value as it is met by a decoder. A date stands as an object with one member of a reserved
name, so it is neither a text nor a number. -/
def source : Toml → Source
  | .str text => .scalar (.str text)
  | .int value => .scalar (.int value)
  | .float value => .scalar (.float value)
  | .bool value => .scalar (.bool value)
  | .dateTime text => .obj [("$__toml_private_datetime", .scalar (.str text))] .spare
  | .array items => .arr (itemSources items) .spare
  | .table _ entries => .obj (entrySources entries) .spare
  | .tables items => .arr (tableSources items) .spare
where
  /-- The items of an array. -/
  itemSources : List Toml → List Source
    | [] => []
    | item :: rest => source item :: itemSources rest
  /-- The entries of a table. -/
  entrySources : List (String × Toml) → List (String × Source)
    | [] => []
    | (key, value) :: rest => (key, source value) :: entrySources rest
  /-- The tables of a header in double brackets. -/
  tableSources : List (List (String × Toml)) → List Source
    | [] => []
    | entries :: rest => .obj (entrySources entries) .spare :: tableSources rest

end Toml

end StatusEffects
