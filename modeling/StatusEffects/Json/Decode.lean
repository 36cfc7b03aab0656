import StatusEffects.Number.Single
import StatusEffects.Json.Source

/-!
Decoding records from JSON, part by part and in the order of the source.

The members of an object are visited as they come; a wrong value is reported when its member is
visited, a missing member once all have been seen. A record may also be given as an array of its
members in the order of their declaration.
-/

set_option autoImplicit false

namespace StatusEffects.Json

inductive DecodeError where
  /-- The text is not JSON. -/
  | malformed
  /-- A value is of another kind than its place asks for. -/
  | invalidType
  /-- An integer is out of range, or an object stands for a choice without naming one. -/
  | invalidValue
  /-- An array has the wrong number of items for its record. -/
  | invalidLength (length : Nat)
  | missingField (name : String)
  | duplicateField (name : String)
  | unknownVariant (name : String)
deriving DecidableEq, Repr

/-- The wording of an error. Malformed text has one wording for all its forms. -/
def DecodeError.message : DecodeError → String
  | .malformed => "malformed JSON"
  | .invalidType => "invalid type"
  | .invalidValue => "invalid value"
  | .invalidLength length => s!"invalid length {length}"
  | .missingField name => "missing field \x60" ++ name ++ "\x60"
  | .duplicateField name => "duplicate field \x60" ++ name ++ "\x60"
  | .unknownVariant name => "unknown variant \x60" ++ name ++ "\x60"

abbrev Decoded (α : Type) := Except DecodeError α

/-- Comes to the end of an array or object after its last readable part. -/
def Ending.reach : Ending → Decoded Unit
  | .barred => throw .malformed
  | .broken => throw .malformed
  | _ => pure ()

namespace Source

def mismatch {α : Type} : Source → Decoded α
  | .broken => throw .malformed
  | .unfit => throw .malformed
  | _ => throw .invalidType

def skip (s : Source) : Decoded Unit :=
  if s.skippable then pure () else throw .malformed

def value (s : Source) : Decoded Json :=
  match s.value? with
  | some value => pure value
  | none => throw .malformed

def text : Source → Decoded String
  | .scalar (.str value) => pure value
  | s => s.mismatch

def flag : Source → Decoded Bool
  | .scalar (.bool value) => pure value
  | s => s.mismatch

def single : Source → Decoded Float32
  | .scalar (.int value) => pure (Single.ofInt value)
  | .scalar (.float value) => pure (Single.narrow value)
  | s => s.mismatch

def count : Source → Decoded UInt32
  | .scalar (.int value) =>
    if 0 ≤ value ∧ value < UInt32.size then pure value.toNat.toUInt32 else throw .invalidValue
  | s => s.mismatch

def optional {α : Type} (decode : Source → Decoded α) : Source → Decoded (Option α)
  | .scalar .null => pure none
  | s => some <$> decode s

def null : Source → Decoded Unit
  | .scalar .null => pure ()
  | s => s.mismatch

/-- A choice between names: the name, or an object that holds `null` under it and nothing else. -/
def choice {α : Type} (named : String → Decoded α) : Source → Decoded α
  | .scalar (.str name) => named name
  | .obj [(name, content)] ending => do
    let chosen ← named name
    content.null
    ending.reach
    pure chosen
  | .obj _ .counted => throw .invalidValue
  | .obj ((name, content) :: _) _ => do
    let _ ← named name
    content.null
    throw .malformed
  | .obj [] _ => throw .malformed
  | s => s.mismatch

def list {α : Type} (decode : Source → Decoded α) : Source → Decoded (List α)
  | .arr items ending => do
    let values ← items.mapM decode
    ending.reach
    pure values
  | s => s.mismatch

def table {α : Type} (decode : Source → Decoded α) : Source → Decoded (Table α)
  | .obj members ending => do
    let values ← members.foldlM (fun t m => do return t.insert m.1 (← decode m.2)) ∅
    ending.reach
    pure values
  | s => s.mismatch

/-! ### Records -/

def once {α : Type} (name : String) (before : Option α) (decode : Source → Decoded α) (s : Source) :
    Decoded (Option α) :=
  match before with
  | some _ => throw (.duplicateField name)
  | none => some <$> decode s

def required {α : Type} (name : String) : Option α → Decoded α
  | some value => pure value
  | none => throw (.missingField name)

def visit {σ : Type} (step : σ → String → Source → Decoded σ) (start : σ)
    (members : List (String × Source)) (ending : Ending) : Decoded σ := do
  let state ← members.foldlM (fun state m => step state m.1 m.2) start
  ending.reach
  pure state

structure Cursor where
  items : List Source
  ending : Ending
  taken : Nat

abbrev InOrder (α : Type) := StateT Cursor (Except DecodeError) α

namespace InOrder

def next? {α : Type} (decode : Source → Decoded α) : InOrder (Option α) := do
  let cursor ← get
  match cursor.items with
  | item :: rest =>
    set { cursor with items := rest, taken := cursor.taken + 1 }
    some <$> (decode item : Decoded α)
  | [] =>
    cursor.ending.reach
    pure none

def next {α : Type} (decode : Source → Decoded α) : InOrder α := do
  let position := (← get).taken
  match ← next? decode with
  | some value => pure value
  | none => throw (.invalidLength position)

def nextD {α : Type} (decode : Source → Decoded α) (default : α) : InOrder α := do
  return (← next? decode).getD default

/-- Reads a whole array; items that were not asked for are judged by its ending. -/
def run {α : Type} (read : InOrder α) (items : List Source) (ending : Ending) : Decoded α := do
  let (value, cursor) ← StateT.run read ⟨items, ending, 0⟩
  ending.reach
  match cursor.items, ending with
  | _ :: _, .counted => throw (.invalidLength items.length)
  | _ :: _, .closed => throw .malformed
  | _, _ => pure value

end InOrder

end Source

def decodeText {α : Type} (decode : Source → Decoded α) (text : String) : Decoded α := do
  let (source, clean) := Source.ofText text
  let value ← decode source
  if clean then pure value else throw .malformed

/-- Decodes the text of a choice, which must begin a name or an object. -/
def decodeChoice {α : Type} (named : String → Decoded α) (text : String) : Decoded α :=
  match skipBlanks text.toList with
  | '"' :: _ => decodeText (Source.choice named) text
  | '\x7b' :: _ => decodeText (Source.choice named) text
  | _ => throw .malformed

def decodeValue {α : Type} (decode : Source → Decoded α) (value : Json) : Decoded α :=
  decode (Source.ofJson value)

end StatusEffects.Json
