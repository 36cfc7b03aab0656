import StatusEffects.Rulebook
import StatusEffects.Text.Quoted

/-!
Descriptions of tables of rules for diagnostics.
-/

set_option autoImplicit false

namespace StatusEffects

def Operator.describe : Operator → String
  | .baseAdd => "BaseAdd"
  | .add => "Add"
  | .percentAdd => "PercentAdd"
  | .percentMult => "PercentMult"
  | .negate => "Negate"
  | .max => "Max"
  | .min => "Min"
  | .replace => "Replace"
  | .zero => "Zero"
  | .one => "One"
  | .custom name => "Custom(" ++ Text.quote name ++ ")"

def OperatorTable.describe (table : OperatorTable) : String :=
  "OperatorTable \x7b order: " ++ Text.listed (table.order.map Operator.describe) ++ " \x7d"

def ConditionTypes.describe {π : Type} (types : ConditionTypes π) : String :=
  "ConditionRegistry \x7b tags: " ++ Text.listed (types.builders.keys.map Text.quote) ++ " \x7d"

end StatusEffects
