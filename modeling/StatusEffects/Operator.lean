import StatusEffects.Error

/-!
Operators and the table that orders them.

An operator says how the value of a modifier is folded into a stat. The table gives each operator
its place in the order of application and holds the folds of operators that a game adds. An operator
that the table does not list has no place: it sorts before all others and leaves a value as it is.
-/

set_option autoImplicit false

namespace StatusEffects

inductive Operator where
  /-- Adds, before every other operator. -/
  | baseAdd
  /-- Adds. -/
  | add
  /-- Adjacent values are added up, and the sum `s` multiplies by `1 + s`. -/
  | percentAdd
  /-- A value `b` multiplies by `1 + b`. -/
  | percentMult
  | negate
  | max
  | min
  | replace
  | zero
  | one
  /-- An operator added by a game. -/
  | custom (name : String)
deriving DecidableEq, Repr

namespace Operator

def name : Operator → String
  | .baseAdd => "base_add"
  | .add => "add"
  | .percentAdd => "percent_add"
  | .percentMult => "percent_mult"
  | .negate => "negate"
  | .max => "max"
  | .min => "min"
  | .replace => "replace"
  | .zero => "zero"
  | .one => "one"
  | .custom name => name

def builtins : List Operator :=
  [.baseAdd, .add, .percentAdd, .percentMult, .negate, .max, .min, .replace, .zero, .one]

/-- The operator of a name: a built-in one if the name is its name, else an added one. -/
def ofName (name : String) : Operator :=
  (builtins.find? fun op => op.name = name).getD (.custom name)

def isCustom : Operator → Bool
  | .custom _ => true
  | _ => false

/-- Naming the operator of a name gives the name back. -/
@[simp] theorem name_ofName (n : String) : (ofName n).name = n := by
  unfold ofName
  cases found : builtins.find? fun op => op.name = n with
  | none => rfl
  | some op => simpa using List.find?_some found

end Operator

structure OperatorTable where
  /-- The listed operators in their order of application. -/
  order : List Operator
  /-- The folds of added operators by name. -/
  folds : Table (Float32 → Float32 → Float32)

namespace OperatorTable

def builtin : OperatorTable := ⟨Operator.builtins, ∅⟩

instance : Inhabited OperatorTable := ⟨builtin⟩

def contains (table : OperatorTable) (op : Operator) : Bool := op ∈ table.order

def register (table : OperatorTable) (name : String) (priority : Option Nat)
    (fold : Float32 → Float32 → Float32) : Except ConfigError OperatorTable :=
  let op := Operator.ofName name
  if table.contains op then throw (.duplicateOperator name)
  else
    let index := match priority with
      | some index => Nat.min index table.order.length
      | none => table.order.length
    pure ⟨table.order.insertIdx index op, table.folds.insert name fold⟩

/-- The place of an operator in the order; an operator that is not listed comes before all. -/
def rank (table : OperatorTable) (op : Operator) : Int :=
  match table.order.findIdx? (· = op) with
  | some index => index
  | none => -1

/-- Folds a modifier's value into a result; an operator without a fold changes nothing. -/
def apply (table : OperatorTable) (op : Operator) (result value : Float32) : Float32 :=
  match op with
  | .baseAdd | .add | .percentAdd => result + value
  | .percentMult => result * (1 + value)
  | .negate => -result
  | .max => Single.max result value
  | .min => Single.min result value
  | .replace => value
  | .zero => 0
  | .one => 1
  | .custom name =>
    match table.folds.get? name with
    | some fold => fold result value
    | none => result

end OperatorTable

end StatusEffects
