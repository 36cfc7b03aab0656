import StatusEffects.Data.First
import StatusEffects.Effect.Stack

/-!
Live effects: the stacks of an effect type on an entity and what follows from them.
-/

set_option autoImplicit false

namespace StatusEffects

/-- A live effect. The count and `active` are kept; the entity brings them up to date. -/
structure LiveEffect (π : Type) where
  effect : EffectName
  /-- Tells this effect from earlier ones of its type. -/
  serial : Handle
  /-- The stacks, oldest first. -/
  held : List (Stack π)
  /-- The conditions of the custom effects; one is absent while it is looked at. -/
  conditions : List (Condition π)
  /-- The sum of the values of the active stacks. -/
  count : UInt32
  /-- Whether the effect applies: it counts and the entity is not immune. -/
  active : Bool
deriving DecidableEq, Repr

namespace LiveEffect

variable {π : Type}

def blank : LiveEffect π := ⟨"", 0, [], [], 0, false⟩

instance : Inhabited (LiveEffect π) := ⟨blank⟩

instance : Poolable (LiveEffect π) where
  blank := blank
  clear e := { e with
    effect := "", serial := 0, held := [], conditions := [], count := 0, active := false }

def stack? (e : LiveEffect π) (id : Handle) : Option (Stack π) := e.held.find? fun s => s.id = id

def modifyStack (e : LiveEffect π) (id : Handle) (change : Stack π → Stack π) : LiveEffect π :=
  { e with held := modifyFirst (fun s => s.id = id) change e.held }

def removeStack? (e : LiveEffect π) (id : Handle) : Option (Stack π × LiveEffect π) :=
  match e.stack? id with
  | none => none
  | some s => some (s, { e with held := e.held.eraseP fun s => s.id = id })

/-- The handle of the oldest stack without a source. -/
def firstSourceless? (e : LiveEffect π) : Option Handle :=
  (e.held.find? fun s => !s.isSourced).map Stack.id

def stacksOf (e : LiveEffect π) (source : SourceTag) : List Handle :=
  (e.held.filter fun s => s.source = some source).map Stack.id

def sourcelessStacks (e : LiveEffect π) : List Handle :=
  (e.held.filter fun s => !s.isSourced).map Stack.id

def activeSum (e : LiveEffect π) : Nat :=
  (e.held.filter Stack.active).foldr (fun s sum => s.value.toNat + sum) 0

def condition (e : LiveEffect π) (index : Nat) : Condition π := e.conditions.getD index .absent

theorem id_of_stack? {e : LiveEffect π} {id : Handle} {s : Stack π}
    (found : e.stack? id = some s) : s.id = id := by
  have passes := List.find?_some found
  exact of_decide_eq_true passes

end LiveEffect

end StatusEffects
