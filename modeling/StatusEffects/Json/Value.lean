import StatusEffects.Data.Table

/-!
JSON values.

Integers and floating point numbers are different values: a numeral with a fraction or an exponent
is a `float` even when it denotes a whole number. An object is canonical when its members stand in
the order of their names, each name once; `Json.object` builds such objects.
-/

set_option autoImplicit false

namespace StatusEffects

/-- A JSON value. Integers lie between `-2 ^ 63` and `2 ^ 64 - 1`; floats are finite. -/
inductive Json where
  | null
  | bool (value : Bool)
  | int (value : Int)
  | float (value : Float)
  | str (value : String)
  | arr (items : List Json)
  | obj (members : List (String × Json))

namespace Json

instance : Inhabited Json := ⟨.null⟩

/-- The canonical object with these members; of two members of one name the later one counts. -/
def object (members : List (String × Json)) : Json :=
  .obj (Table.ofList members).entries

def ofFloat (x : Float) : Json :=
  if x.isFinite then .float x else .null

def member? (name : String) : Json → Option Json
  | .obj members => Table.lookup name members
  | _ => none

def text? : Json → Option String
  | .str value => some value
  | _ => none

def items? : Json → Option (List Json)
  | .arr items => some items
  | _ => none

def bool? : Json → Option Bool
  | .bool value => some value
  | _ => none

def int? : Json → Option Int
  | .int value => some value
  | _ => none

def number? : Json → Option Float
  | .int value => some (if value < 0 then -(value.natAbs.toUInt64.toFloat)
      else value.natAbs.toUInt64.toFloat)
  | .float value => some value
  | _ => none

end Json

end StatusEffects
