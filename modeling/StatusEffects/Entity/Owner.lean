import StatusEffects.Name

/-!
Who is told about events: the owners of condition trees, those that wait for time to pass and those
that watch a stat.
-/

set_option autoImplicit false

namespace StatusEffects

/-- The place of a condition tree on an entity. Handles are not given twice, so the owner of
something that is gone names nothing. -/
inductive Owner where
  /-- The duration of a modifier. -/
  | modifier (stat : StatName) (id : Handle)
  /-- The duration of a stack. -/
  | stack (effect : EffectName) (id : Handle)
  /-- A custom effect of a live effect. -/
  | custom (effect : EffectName) (serial : Handle) (index : Nat)
deriving DecidableEq, Repr

end StatusEffects
