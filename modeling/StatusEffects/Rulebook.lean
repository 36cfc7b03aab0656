import StatusEffects.Effect.Definition

/-!
The rules of a game, which all its entities share: operators, condition types, defaults of stats,
effect definitions, and what the game adds by hooks.
-/

set_option autoImplicit false

namespace StatusEffects

/-- A rule for the value of one stat. It may ask for other stats, and for its own plain value. -/
abbrev StatRule (π : Type) := View π → StatName → Selection → Float32

structure Rulebook (π : Type) where
  operators : OperatorTable
  conditionTypes : ConditionTypes π
  /-- Base values of stats that were never set. -/
  defaults : Table Float32
  effects : Table (EffectDefinition π)
  statRules : Table (StatRule π)
  /-- What runs after a stat was set, unless it already runs for that stat. -/
  modifiedHooks : Table (StatName → Script π Unit)
  /-- Whether an entity ignores an effect. -/
  immunity : Option (View π → EffectName → Bool)
  /-- Every effect is filed under its own name. -/
  filed : ∀ name d, effects.get? name = some d → d.effect = name

namespace Rulebook

variable {π : Type}

def builtin : Rulebook π where
  operators := .builtin
  conditionTypes := .builtin
  defaults := ∅
  effects := ∅
  statRules := ∅
  modifiedHooks := ∅
  immunity := none
  filed := by simp

instance : Inhabited (Rulebook π) := ⟨builtin⟩

/-! ### Registration -/

def registerOperator (rules : Rulebook π) (name : String) (priority : Option Nat)
    (fold : Float32 → Float32 → Float32) : Except ConfigError (Rulebook π) := do
  pure { rules with operators := ← rules.operators.register name priority fold }

def registerConditionType (rules : Rulebook π) (tag : String)
    (builder : Params → Except ConfigError (Trigger π)) : Except ConfigError (Rulebook π) := do
  pure { rules with conditionTypes := ← rules.conditionTypes.register tag builder }

def registerStat (rules : Rulebook π) (stat : StatName) (default : Float32) :
    Except ConfigError (Rulebook π) :=
  if rules.defaults.contains stat then throw (.duplicateStat stat)
  else pure { rules with defaults := rules.defaults.insert stat default }

private theorem filed_insert (rules : Rulebook π) (definition : EffectDefinition π) :
    ∀ name d, (rules.effects.insert definition.effect definition).get? name = some d →
      d.effect = name := by
  intro name d found
  rw [Table.get?_insert] at found
  split at found
  · rename_i same
    cases found
    exact same.symm
  · exact rules.filed name d found

def registerEffect (rules : Rulebook π) (definition : EffectDefinition π) :
    Except ConfigError (Rulebook π) :=
  if rules.effects.contains definition.effect then throw (.duplicateEffect definition.effect)
  else pure { rules with
    effects := rules.effects.insert definition.effect definition
    filed := filed_insert rules definition }

def default (rules : Rulebook π) (stat : StatName) : Float32 := (rules.defaults.get? stat).getD 0

/-! ### Values of stats -/

def stat (rules : Rulebook π) (e : Entity π) (stat : StatName) : StatValue :=
  (e.values.get? stat).getD (.ofBase (rules.default stat))

def calculatePlain (rules : Rulebook π) (e : Entity π) (stat : StatName) (selection : Selection) :
    Float32 :=
  rules.operators.calculate (rules.stat e stat).base (e.modifiers.get stat) selection

/-- The value of a stat where at most `depth` rules ask each other. -/
def calculateWithin (rules : Rulebook π) (e : Entity π) :
    (depth : Nat) → StatName → Selection → Float32
  | 0, stat, selection => rules.calculatePlain e stat selection
  | depth + 1, stat, selection =>
    match rules.statRules.get? stat with
    | none => rules.calculatePlain e stat selection
    | some rule =>
      rule ⟨e, rules.stat e, rules.calculateWithin e depth, rules.calculatePlain e⟩ stat selection

/-- The value of a stat. There are four selections, so a chain of more than four times as many
rules as there are asks the same question again and would never end. -/
def calculate (rules : Rulebook π) (e : Entity π) (stat : StatName) (selection : Selection) :
    Float32 :=
  rules.calculateWithin e (4 * rules.statRules.size + 1) stat selection

def view (rules : Rulebook π) (e : Entity π) : View π :=
  ⟨e, rules.stat e, rules.calculate e, rules.calculatePlain e⟩

def readings (rules : Rulebook π) (e : Entity π) : Readings := (rules.view e).readings

def isImmune (rules : Rulebook π) (e : Entity π) (effect : EffectName) : Bool :=
  match rules.immunity with
  | some immune => immune (rules.view e) effect
  | none => false

end Rulebook

end StatusEffects
