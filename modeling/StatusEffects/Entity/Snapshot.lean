import StatusEffects.Entity.Basic

/-!
Snapshots: what has to be kept to set an entity up again.

Activity and the results of conditions are not kept, since they follow. Modifiers that effects apply
are not kept either, since the stacks apply them again.
-/

set_option autoImplicit false

namespace StatusEffects

open Json (Source Decoded)

structure EffectSnapshot where
  effect : EffectName
  held : List StackForm

/-- The stored stats, modifiers and stacks of an entity. -/
structure Snapshot where
  stats : Table StatValue
  /-- By stat, each stat's modifiers in their order. -/
  modifiers : List ModifierForm
  /-- In the order of the effects. -/
  effects : List EffectSnapshot

def Entity.snapshot {π : Type} [CustomTrigger π] (e : Entity π) : Snapshot where
  stats := e.values
  modifiers := (e.modifiers.toList.filter fun m => !m.source.any SourceTag.isOfEffect).map
    Modifier.form
  effects := e.effects.values.map fun live => ⟨live.effect, live.held.map Stack.form⟩

namespace EffectSnapshot

def json (s : EffectSnapshot) : Json :=
  .object [("effect", .str s.effect), ("stacks", .arr (s.held.map StackForm.json))]

def ofSource : Source → Decoded EffectSnapshot
  | .obj members ending => do
    let (effect, held) ← Source.visit (fun (effect, held) name s => match name with
        | "effect" => do pure (← Source.once name effect Source.text s, held)
        | "stacks" => do
          pure (effect, ← Source.once name held (Source.list StackForm.ofSource) s)
        | _ => do s.skip; pure (effect, held))
      (none, none) members ending
    pure ⟨← Source.required "effect" effect, ← Source.required "stacks" held⟩
  | .arr items ending =>
    Source.InOrder.run (do
      let effect ← Source.InOrder.next Source.text
      let held ← Source.InOrder.next (Source.list StackForm.ofSource)
      pure ⟨effect, held⟩) items ending
  | s => s.mismatch

end EffectSnapshot

namespace Snapshot

def empty : Snapshot := ⟨∅, [], []⟩

def json (s : Snapshot) : Json :=
  .obj
    [("stats", .obj (s.stats.mapValues fun _ v => v.json).entries),
      ("modifiers", .arr (s.modifiers.map ModifierForm.json)),
      ("effects", .arr (s.effects.map EffectSnapshot.json))]

structure Draft where
  stats : Option (Table StatValue)
  modifiers : Option (List ModifierForm)
  effects : Option (List EffectSnapshot)

/-- Decodes the written form. Each part may be left out. -/
def ofSource : Source → Decoded Snapshot
  | .obj members ending => do
    let d ← Source.visit (fun (d : Draft) name s => match name with
        | "stats" => do
          pure { d with stats := ← Source.once name d.stats (Source.table StatValue.ofSource) s }
        | "modifiers" => do
          pure { d with
            modifiers := ← Source.once name d.modifiers (Source.list ModifierForm.ofSource) s }
        | "effects" => do
          pure { d with
            effects := ← Source.once name d.effects (Source.list EffectSnapshot.ofSource) s }
        | _ => do s.skip; pure d)
      ⟨none, none, none⟩ members ending
    pure ⟨d.stats.getD ∅, d.modifiers.getD [], d.effects.getD []⟩
  | .arr items ending =>
    Source.InOrder.run (do
      let stats ← Source.InOrder.nextD (Source.table StatValue.ofSource) ∅
      let modifiers ← Source.InOrder.nextD (Source.list ModifierForm.ofSource) []
      let effects ← Source.InOrder.nextD (Source.list EffectSnapshot.ofSource) []
      pure ⟨stats, modifiers, effects⟩) items ending
  | s => s.mismatch

end Snapshot

end StatusEffects
