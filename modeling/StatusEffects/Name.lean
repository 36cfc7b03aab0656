/-!
Names of stats, effects and sources, and handles of live entries.
-/

set_option autoImplicit false

namespace StatusEffects

abbrev StatName := String

/-- The name of an effect type, such as `poison`. It also names the stat of that name, so that
modifiers can be routed into the effect. -/
abbrev EffectName := String

/-- The owner of a modifier or stack. What has a source is taken away by its owner only. -/
abbrev SourceTag := String

/-- The number of a live modifier, stack or effect instance. Zero is given to none of them. -/
abbrev Handle := Nat

namespace SourceTag

def effectMark : String := "effect:"

def ofEffect (effect : EffectName) : SourceTag := effectMark ++ effect

def isOfEffect (source : SourceTag) : Bool := source.startsWith effectMark

theorem ofEffect_inj {first second : EffectName} :
    ofEffect first = ofEffect second ↔ first = second := by
  unfold ofEffect
  exact String.append_right_inj _

theorem isOfEffect_ofEffect (effect : EffectName) : isOfEffect (ofEffect effect) = true := by
  unfold isOfEffect ofEffect
  simp

theorem isOfEffect_iff {source : SourceTag} :
    isOfEffect source = true ↔ ∃ effect, source = ofEffect effect := by
  constructor
  · intro marked
    unfold isOfEffect at marked
    rw [String.startsWith_string_iff] at marked
    obtain ⟨rest, whole⟩ := marked
    refine ⟨String.ofList rest, ?_⟩
    unfold ofEffect
    rw [← String.toList_inj, String.toList_append, String.toList_ofList, whole]
  · rintro ⟨effect, rfl⟩
    exact isOfEffect_ofEffect effect

/-- The tags of effects come in the order of their names. -/
theorem ofEffect_lt {first second : EffectName} (before : first < second) :
    ofEffect first < ofEffect second := by
  change first.toList < second.toList at before
  change (effectMark ++ first).toList < (effectMark ++ second).toList
  rw [String.toList_append, String.toList_append]
  exact List.append_left_lt before

end SourceTag

/-- What became of a modifier or stack that was added. -/
inductive Outcome where
  /-- It stands in the list of its stat. -/
  | modifier (id : Handle)
  /-- It is a new stack. -/
  | stack (id : Handle)
  /-- It went into a stack that was there. -/
  | merged (id : Handle)
  /-- It was expired on arrival, or nothing of it was left under the cap. -/
  | discarded
deriving DecidableEq, Repr

def Outcome.isApplied : Outcome → Bool
  | .discarded => false
  | _ => true

end StatusEffects
