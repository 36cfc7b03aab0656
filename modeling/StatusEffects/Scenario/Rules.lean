import StatusEffects.Rulebook

/-!
Rules that scenarios can add to a game: folds, rules for stats and immunities.
-/

set_option autoImplicit false

namespace StatusEffects.Scenario

/-- The fold of a name; a name that is not known squares the modifier's value. -/
def foldOfName (name : String) (a b : Float32) : Float32 :=
  match name with
  | "double" => a * 2
  | "sub" => a - b
  | "avg" => (a + b) * 0.5
  | "floor" => Single.floor (a * b)
  | _ => b * b

inductive StatRuleKind where
  /-- The plain value, at most a limit. -/
  | cap (limit : Float32)
  /-- The plain value and a share of another stat. -/
  | plus (other : StatName) (share : Float32)
  /-- The current value. -/
  | current
  | constant (value : Float32)

def StatRuleKind.rule {π : Type} : StatRuleKind → StatRule π
  | .cap limit, v, stat, selection => Single.min (v.calculatePlain stat selection) limit
  | .plus other share, v, stat, selection =>
    v.calculatePlain stat selection + v.calculate other selection * share
  | .current, v, stat, _ => (v.stat stat).current
  | .constant value, _, _, _ => value

structure Immunity where
  effect : EffectName
  stat : StatName
  compare : Comparison
  value : Float32

def isImmune {π : Type} (immunities : List Immunity) (v : View π) (effect : EffectName) : Bool :=
  immunities.any fun i =>
    i.effect = effect && i.compare.test (v.stat i.stat).current i.value

end StatusEffects.Scenario
