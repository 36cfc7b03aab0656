import StatusEffects.Effect.Stack
import StatusEffects.Modifier.Basic

/-!
The written form of effect definitions: what of them is data and not hooks.
-/

set_option autoImplicit false

namespace StatusEffects

open Json (Source Decoded)

structure EffectForm where
  effect : EffectName
  maxStack : UInt32
  stacking : Stacking
  duration : ConditionForm
  modifiers : List ModifierForm

namespace EffectForm

/-- The form as a JSON value, with `null` for no duration. -/
def json (f : EffectForm) : Json :=
  .object
    [("id", .str f.effect), ("max_stack", .int f.maxStack.toNat), ("stack_mode", f.stacking.json),
      ("duration", f.duration.json), ("modifiers", .arr (f.modifiers.map ModifierForm.json))]

private structure Draft where
  effect : Option EffectName
  maxStack : Option UInt32
  stacking : Option Stacking
  duration : Option ConditionForm
  modifiers : Option (List ModifierForm)

/-- Decodes a form, of which only the name must be given. -/
def ofSource : Source → Decoded EffectForm
  | .obj members ending => do
    let d ← Source.visit (fun (d : Draft) name s => match name with
        | "id" => do pure { d with effect := ← Source.once name d.effect Source.text s }
        | "max_stack" => do pure { d with maxStack := ← Source.once name d.maxStack Source.count s }
        | "stack_mode" => do
          pure { d with stacking := ← Source.once name d.stacking Stacking.ofSource s }
        | "duration" => do
          pure { d with duration := ← Source.once name d.duration ConditionForm.ofOptional s }
        | "modifiers" => do
          pure { d with
            modifiers := ← Source.once name d.modifiers (Source.list ModifierForm.ofSource) s }
        | _ => do s.skip; pure d)
      ⟨none, none, none, none, none⟩ members ending
    pure ⟨← Source.required "id" d.effect, d.maxStack.getD 0, d.stacking.getD .merge,
      d.duration.getD .absent, d.modifiers.getD []⟩
  | .arr items ending =>
    Source.InOrder.run (do
      let effect ← Source.InOrder.next Source.text
      let maxStack ← Source.InOrder.nextD Source.count 0
      let stacking ← Source.InOrder.nextD Stacking.ofSource .merge
      let duration ← Source.InOrder.nextD ConditionForm.ofOptional .absent
      let modifiers ← Source.InOrder.nextD (Source.list ModifierForm.ofSource) []
      pure ⟨effect, maxStack, stacking, duration, modifiers⟩) items ending
  | s => s.mismatch

def documentJson (effects : List EffectForm) : Json :=
  .object [("effects", .arr (effects.map json))]

def ofDocument : Source → Decoded (List EffectForm)
  | .obj members ending => do
    let effects ← Source.visit (fun effects name s => match name with
        | "effects" => Source.once name effects (Source.list ofSource) s
        | _ => do s.skip; pure effects)
      none members ending
    pure (effects.getD [])
  | .arr items ending =>
    Source.InOrder.run (Source.InOrder.nextD (Source.list ofSource) []) items ending
  | s => s.mismatch

end EffectForm

end StatusEffects
