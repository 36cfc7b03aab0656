import StatusEffects.Entity.World
import StatusEffects.Modifier.Fold

/-!
Scripts: what hooks do.

A script makes calls one after the other, each in view of the replies so far, and may look at the
entity at any time. Rules that only answer questions see a `View`.
-/

set_option autoImplicit false

namespace StatusEffects

/-- An entity with the values that follow from the rules of the game. -/
structure View (π : Type) where
  entity : Entity π
  /-- The stored values of a stat or its defaults. -/
  stat : StatName → StatValue
  /-- The value of a stat by its own rule if it has one, else the plain one. -/
  calculate : StatName → Selection → Float32
  /-- The value of a stat from its base and its modifiers. -/
  calculatePlain : StatName → Selection → Float32

def View.readings {π : Type} (v : View π) : Readings where
  current stat := (v.stat stat).current
  computed stat := v.calculate stat .standard

structure Sight (π : Type) extends View π where
  isImmune : EffectName → Bool
  /-- The hooks that run, the innermost first. -/
  running : List Hook

/-- A script that ends with a result. -/
inductive Script (π α : Type) where
  | done (result : α)
  | call (c : Call π) (next : c.Reply → Script π α)
  | look (next : Sight π → Script π α)
  /-- Leaves a note in the trace. -/
  | note (answer : Answer π) (next : Script π α)

namespace Script

variable {π α β : Type}

def andThen : Script π α → (α → Script π β) → Script π β
  | .done result, next => next result
  | .call c rest, next => .call c fun reply => (rest reply).andThen next
  | .look rest, next => .look fun sight => (rest sight).andThen next
  | .note answer rest, next => .note answer (rest.andThen next)

instance : Monad (Script π) where
  pure := .done
  bind := andThen

def request (c : Call π) : Script π c.Reply := .call c .done

def sight : Script π (Sight π) := .look .done

end Script

end StatusEffects
