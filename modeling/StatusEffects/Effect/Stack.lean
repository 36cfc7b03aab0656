import StatusEffects.Condition.Form
import StatusEffects.Data.Pool

/-!
Stacks of an effect, and how a new stack combines with those that are there.
-/

set_option autoImplicit false

namespace StatusEffects

open Json (Source Decoded)

/-! ### Stacking -/

/-- How a new stack without a source combines with an earlier one without a source. -/
inductive Stacking where
  /-- Its value is added. -/
  | merge
  /-- The earlier stack's duration starts again, and the value is added. -/
  | restart
  /-- The earlier stack's duration grows, and the value is added. -/
  | extend
  /-- It stays a stack of its own. -/
  | separate
deriving DecidableEq, Repr

namespace Stacking

def all : List Stacking := [.merge, .restart, .extend, .separate]

def name : Stacking → String
  | .merge => "none"
  | .restart => "reup"
  | .extend => "extend"
  | .separate => "multi"

def ofName? (name : String) : Option Stacking := all.find? fun s => s.name = name

def json (s : Stacking) : Json := .object [("type", .str s.name)]

def ofTag (s : Source) : Decoded Stacking := do
  let name ← s.text
  match ofName? name with
  | some stacking => pure stacking
  | none => throw (.unknownVariant name)

/-- Decodes the written form: an object with a type, or an array that holds the name alone. -/
def ofSource : Source → Decoded Stacking
  | .obj members ending => do
    let found ← Source.visit (fun (found : Option Stacking) name s => match name with
        | "type" => Source.once name found ofTag s
        | _ => do
          let _ ← s.value
          pure found)
      none members ending
    Source.required "type" found
  | .arr items ending => do
    match items with
    | [] =>
      ending.reach
      throw (.missingField "type")
    | tag :: rest =>
      let stacking ← ofTag tag
      let others ← (Source.arr rest ending).list Source.value
      if others.isEmpty then pure stacking else throw (.invalidLength others.length)
  | s => s.mismatch

end Stacking

/-! ### Stacks -/

/-- A stack: the additions of a source, or merged additions without a source. -/
structure Stack (π : Type) where
  /-- The number of stacks it stands for. -/
  value : UInt32
  /-- Ends the stack when it is met; a stack without one never ends. -/
  duration : Condition π
  /-- The handle given when the stack was added, before that zero. -/
  id : Handle
  source : Option SourceTag
  /-- Whether the stack counts. -/
  active : Bool
  /-- Whether the stack is attached to an entity. -/
  attached : Bool
deriving DecidableEq, Repr

namespace Stack

variable {π : Type}

def ofValue (value : UInt32) : Stack π := ⟨value, .absent, 0, none, false, false⟩

def blank : Stack π := ofValue 0

instance : Inhabited (Stack π) := ⟨blank⟩

instance : Poolable (Stack π) where
  blank := blank
  clear _ := blank

def isSourced (s : Stack π) : Bool := s.source.isSome

def pristine (s : Stack π) : Stack π := ⟨s.value, s.duration.pristine, 0, none, false, false⟩

def shouldBeActive (s : Stack π) : Bool := !s.duration.holds s.isSourced

def refresh (s : Stack π) : Stack π × Bool :=
  ({ s with active := s.shouldBeActive }, s.shouldBeActive != s.active)

theorem refresh_eq_self {s : Stack π} (unchanged : s.refresh.2 = false) : s.refresh.1 = s := by
  have follows : s.shouldBeActive = s.active := bne_eq_false_iff_eq.1 unchanged
  unfold refresh
  rw [follows]

def detach (s : Stack π) : Stack π :=
  if s.attached then { s with attached := false, duration := s.duration.disarm } else s

variable [CustomTrigger π]

/-- Starts the duration under an owner; an attached stack stays as it is. -/
def attach (s : Stack π) (readings : Readings) (source : Option SourceTag) : Stack π :=
  if s.attached then s
  else
    ({ s with attached := true, source := source, duration := s.duration.arm readings }).refresh.1

@[simp] theorem attach_id (s : Stack π) (readings : Readings) (source : Option SourceTag) :
    (s.attach readings source).id = s.id := by
  unfold attach
  split
  · rfl
  · rfl

end Stack

/-! ### Written form -/

structure StackForm where
  value : UInt32
  duration : ConditionForm
  source : Option SourceTag

def Stack.form {π : Type} [CustomTrigger π] (s : Stack π) : StackForm :=
  ⟨s.value, s.duration.form, s.source⟩

namespace StackForm

def json (f : StackForm) : Json :=
  let duration := match f.duration with
    | .absent => []
    | form => [("duration", form.json)]
  let source := match f.source with
    | none => []
    | some source => [("source", .str source)]
  .object <| [("value", .int f.value.toNat)] ++ duration ++ source

structure Draft where
  value : Option UInt32
  duration : Option ConditionForm
  source : Option (Option SourceTag)

def ofSource : Source → Decoded StackForm
  | .obj members ending => do
    let d ← Source.visit (fun (d : Draft) name s => match name with
        | "value" => do pure { d with value := ← Source.once name d.value Source.count s }
        | "duration" => do
          pure { d with duration := ← Source.once name d.duration ConditionForm.ofOptional s }
        | "source" => do
          pure { d with source := ← Source.once name d.source (Source.optional Source.text) s }
        | _ => do s.skip; pure d)
      ⟨none, none, none⟩ members ending
    pure ⟨← Source.required "value" d.value, d.duration.getD .absent, d.source.getD none⟩
  | .arr items ending =>
    Source.InOrder.run (do
      let value ← Source.InOrder.next Source.count
      let duration ← Source.InOrder.nextD ConditionForm.ofOptional .absent
      let source ← Source.InOrder.nextD (Source.optional Source.text) none
      pure ⟨value, duration, source⟩) items ending
  | s => s.mismatch

def build {π : Type} (types : ConditionTypes π) (f : StackForm) :
    Except ConfigError (Stack π) := do
  let duration ← types.build f.duration
  let stack : Stack π := .ofValue f.value
  pure { stack with duration := duration }

end StackForm

end StatusEffects
