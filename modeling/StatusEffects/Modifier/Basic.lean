import StatusEffects.Condition.Form
import StatusEffects.Data.Pool
import StatusEffects.Operator

/-!
Modifiers: one operator applied to one stat, until a condition ends it.
-/

set_option autoImplicit false

namespace StatusEffects

open Json (Source Decoded)

/-- A modifier. Whether it is active is kept until its duration reports a change. -/
structure Modifier (π : Type) where
  stat : StatName
  op : Operator
  value : Float32
  /-- Left out of calculations that ignore hidden modifiers. -/
  hidden : Bool
  /-- Ends the modifier when it is met; a modifier without one never ends. -/
  duration : Condition π
  /-- The handle given when the modifier was added, before that zero. -/
  id : Handle
  source : Option SourceTag
  active : Bool
  /-- Whether the modifier is attached to an entity. -/
  attached : Bool
deriving DecidableEq, Repr

namespace Modifier

variable {π : Type}

def ofParts (stat : StatName) (op : Operator) (value : Float32) : Modifier π where
  stat := stat
  op := op
  value := value
  hidden := false
  duration := .absent
  id := 0
  source := none
  active := false
  attached := false

def blank : Modifier π := ofParts "" .add 0

instance : Inhabited (Modifier π) := ⟨blank⟩

instance : Poolable (Modifier π) where
  blank := blank
  clear _ := blank

def isSourced (m : Modifier π) : Bool := m.source.isSome

/-- What a modifier does to its stat, without what the entity keeps about it. -/
def look (m : Modifier π) : Modifier π :=
  { m with duration := .absent, id := 0, source := none, active := false, attached := false }

@[simp] theorem look_stat (m : Modifier π) : m.look.stat = m.stat := rfl

def configure (m other : Modifier π) : Modifier π :=
  { m with
    stat := other.stat
    op := other.op
    value := other.value
    hidden := other.hidden
    duration := other.duration.pristine }

def pristine (m : Modifier π) : Modifier π := blank.configure m

def shouldBeActive (m : Modifier π) : Bool := !m.duration.holds m.isSourced

def refresh (m : Modifier π) : Modifier π × Bool :=
  ({ m with active := m.shouldBeActive }, m.shouldBeActive != m.active)

theorem refresh_eq_self {m : Modifier π} (unchanged : m.refresh.2 = false) : m.refresh.1 = m := by
  have follows : m.shouldBeActive = m.active := bne_eq_false_iff_eq.1 unchanged
  unfold refresh
  rw [follows]

def detach (m : Modifier π) : Modifier π :=
  if m.attached then { m with attached := false, duration := m.duration.disarm } else m

variable [CustomTrigger π]

/-- Starts the duration under an owner; an attached modifier stays as it is. -/
def attach (m : Modifier π) (readings : Readings) (source : Option SourceTag) : Modifier π :=
  if m.attached then m
  else
    ({ m with attached := true, source := source, duration := m.duration.arm readings }).refresh.1

@[simp] theorem attach_id (m : Modifier π) (readings : Readings) (source : Option SourceTag) :
    (m.attach readings source).id = m.id := by
  unfold attach
  split
  · rfl
  · rfl

@[simp] theorem attach_stat (m : Modifier π) (readings : Readings) (source : Option SourceTag) :
    (m.attach readings source).stat = m.stat := by
  unfold attach
  split
  · rfl
  · rfl

theorem attach_source (m : Modifier π) (readings : Readings) (source : Option SourceTag) :
    (m.attach readings source).source = if m.attached then m.source else source := by
  unfold attach
  split
  · rfl
  · rfl

theorem attach_look (m : Modifier π) (readings : Readings) (source : Option SourceTag) :
    (m.attach readings source).look = m.look := by
  unfold attach
  split
  · rfl
  · rfl

end Modifier

/-! ### Written form -/

structure ModifierForm where
  stat : StatName
  op : Operator
  value : Float32
  hidden : Bool
  duration : ConditionForm
  source : Option SourceTag

def Modifier.form {π : Type} [CustomTrigger π] (m : Modifier π) : ModifierForm :=
  ⟨m.stat, m.op, m.value, m.hidden, m.duration.form, m.source⟩

namespace ModifierForm

def json (f : ModifierForm) : Json :=
  let duration := match f.duration with
    | .absent => []
    | form => [("duration", form.json)]
  let source := match f.source with
    | none => []
    | some source => [("source", .str source)]
  .obj <|
    [("stat", .str f.stat), ("op", .str f.op.name), ("value", .ofFloat (Single.widen f.value)),
      ("is_hidden", .bool f.hidden)] ++ duration ++ source

def operator (s : Source) : Decoded Operator := Operator.ofName <$> s.text

structure Draft where
  stat : Option StatName
  op : Option Operator
  value : Option Float32
  hidden : Option Bool
  duration : Option ConditionForm
  source : Option (Option SourceTag)

def ofSource : Source → Decoded ModifierForm
  | .obj members ending => do
    let d ← Source.visit (fun (d : Draft) name s => match name with
        | "stat" => do pure { d with stat := ← Source.once name d.stat Source.text s }
        | "op" => do pure { d with op := ← Source.once name d.op operator s }
        | "value" => do pure { d with value := ← Source.once name d.value Source.single s }
        | "is_hidden" => do pure { d with hidden := ← Source.once name d.hidden Source.flag s }
        | "duration" => do
          pure { d with duration := ← Source.once name d.duration ConditionForm.ofOptional s }
        | "source" => do
          pure { d with source := ← Source.once name d.source (Source.optional Source.text) s }
        | _ => do s.skip; pure d)
      ⟨none, none, none, none, none, none⟩ members ending
    pure ⟨← Source.required "stat" d.stat, ← Source.required "op" d.op,
      ← Source.required "value" d.value, d.hidden.getD false, d.duration.getD .absent,
      d.source.getD none⟩
  | .arr items ending =>
    Source.InOrder.run (do
      let stat ← Source.InOrder.next Source.text
      let op ← Source.InOrder.next operator
      let value ← Source.InOrder.next Source.single
      let hidden ← Source.InOrder.nextD Source.flag false
      let duration ← Source.InOrder.nextD ConditionForm.ofOptional .absent
      let source ← Source.InOrder.nextD (Source.optional Source.text) none
      pure ⟨stat, op, value, hidden, duration, source⟩) items ending
  | s => s.mismatch

def build {π : Type} (types : ConditionTypes π) (f : ModifierForm) :
    Except ConfigError (Modifier π) := do
  let duration ← types.build f.duration
  let m : Modifier π := .ofParts f.stat f.op f.value
  pure { m with hidden := f.hidden, duration := duration }

end ModifierForm

end StatusEffects
