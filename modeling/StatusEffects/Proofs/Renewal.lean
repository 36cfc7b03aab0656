import Mathlib.Data.List.Perm.Basic
import StatusEffects.Proofs.Propagation
import StatusEffects.Proofs.Run
import StatusEffects.Proofs.Tidy

/-!
The modifiers that effects apply, and what a trace tells of them.

To renew the modifiers of an effect is to take the earlier ones away and to apply them one by one.
Each of these changes is announced, so the effect may be settled again or removed before its renewal
is over. What the overtaken renewal still applies then comes on top of what is due.
-/

set_option autoImplicit false

namespace StatusEffects

variable {π : Type}

def Modifier.times (m : Modifier π) (count : UInt32) : Modifier π :=
  { m with value := m.value * count.toFloat32 }

def EffectDefinition.scaled (d : EffectDefinition π) (count : UInt32) : List (Modifier π) :=
  d.modifiers.map fun template => template.times count

namespace Entity

/-- The modifiers that an effect owes to an entity: none unless it is live and applies. -/
def due (e : Entity π) (d : EffectDefinition π) : List (Modifier π) :=
  match e.effects.get? d.effect with
  | some live => if live.active then d.scaled live.count else []
  | none => []

def applied (e : Entity π) (effect : EffectName) (stat : StatName) : List (Modifier π) :=
  (e.modifiers.get stat).filter fun m => m.source = some (SourceTag.ofEffect effect)

/-- The live modifiers that stem from an effect are the ones that are due. -/
def Mirrors (e : Entity π) (d : EffectDefinition π) : Prop :=
  ∀ stat, ((e.applied d.effect stat).map Modifier.look).Perm
    (((e.due d).filter fun m => m.stat = stat).map Modifier.look)

end Entity

/-! ### Renewals in a trace -/

/-- What has become of the latest renewal of the modifiers of an effect. -/
structure Renewal (π : Type) where
  /-- It goes on, and nothing has overtaken it. -/
  running : Bool
  /-- What it applied. -/
  own : List (Modifier π)
  /-- What earlier renewals applied after it. -/
  late : List (Modifier π)
  /-- What was taken out by handle since. -/
  lost : List (Modifier π)

namespace Renewal

def gone : Renewal π := ⟨false, [], [], []⟩

def begun : Renewal π := ⟨true, [], [], []⟩

/-- A renewal of the effect, the latest one or one that it has overtaken, applies a modifier. -/
def apply (r : Renewal π) (m : Modifier π) : Renewal π :=
  if r.running then { r with own := m.look :: r.own } else { r with late := m.look :: r.late }

def after (effect : EffectName) : Occurrence π → Renewal π → Renewal π
  | .renewalStarted name _, r => if name = effect then begun else r
  | .renewed name m _, r => if name = effect then r.apply m else r
  | .renewalEnded name _, r => if name = effect then { r with running := false } else r
  | .effectRemoved name _, r => if name = effect then gone else r
  | .modifierTaken stat id seen, r =>
    match seen.modifiers.find? stat id with
    | none => r
    | some m =>
      if m.source = some (SourceTag.ofEffect effect) then { r with lost := m.look :: r.lost } else r
  | _, r => r

theorem apply_perm (r : Renewal π) (m : Modifier π) :
    ((r.apply m).own ++ (r.apply m).late).Perm (m.look :: (r.own ++ r.late)) := by
  unfold apply
  split
  · exact .refl _
  · exact List.perm_middle

theorem apply_lost (r : Renewal π) (m : Modifier π) : (r.apply m).lost = r.lost := by
  unfold apply
  split
  · rfl
  · rfl

/-- What overtaken renewals applied has been taken out by handle again. -/
def Offset (r : Renewal π) : Prop := r.late.Perm r.lost

end Renewal

def renewal (effect : EffectName) (trace : List (Occurrence π)) : Renewal π :=
  trace.foldr (Renewal.after effect) .gone

def Occurrence.concerns (effect : EffectName) : Occurrence π → Bool
  | .renewalStarted name _ | .renewed name _ _ | .renewalEnded name _ | .effectRemoved name _ =>
    name = effect
  | .modifierTaken stat id seen =>
    (seen.modifiers.find? stat id).any fun m => m.source = some (SourceTag.ofEffect effect)
  | _ => false

theorem renewal_cons (effect : EffectName) (o : Occurrence π) (trace : List (Occurrence π)) :
    renewal effect (o :: trace) = (renewal effect trace).after effect o := rfl

/-- Only what concerns the effect matters to its renewals. -/
theorem renewal_cons_of_unconcerned {effect : EffectName} {o : Occurrence π}
    (other : o.concerns effect = false) (trace : List (Occurrence π)) :
    renewal effect (o :: trace) = renewal effect trace := by
  rw [renewal_cons]
  cases o with
  | renewalStarted name _ => exact if_neg (of_decide_eq_false other)
  | renewed name _ _ => exact if_neg (of_decide_eq_false other)
  | renewalEnded name _ => exact if_neg (of_decide_eq_false other)
  | effectRemoved name _ => exact if_neg (of_decide_eq_false other)
  | modifierTaken stat id seen =>
      rw [Occurrence.concerns] at other
      rw [Renewal.after]
      cases found : seen.modifiers.find? stat id with
      | none => rfl
      | some m =>
          rw [found, Option.any_some] at other
          exact if_neg (of_decide_eq_false other)
  | _ => rfl

theorem Occurrence.concerns_of_isPlain {o : Occurrence π} (plain : o.isPlain = true)
    (effect : EffectName) : o.concerns effect = false := by
  cases o with
  | renewalStarted => cases plain
  | renewed => cases plain
  | renewalEnded => cases plain
  | modifierTaken => cases plain
  | effectRemoved => cases plain
  | _ => rfl

theorem Occurrence.concerns_of_isOfTime {o : Occurrence π} (ofTime : o.isOfTime = true)
    (effect : EffectName) : o.concerns effect = false := by
  cases o with
  | renewalStarted => cases ofTime
  | renewed => cases ofTime
  | renewalEnded => cases ofTime
  | modifierTaken => cases ofTime
  | effectRemoved => cases ofTime
  | _ => rfl

/-! ### What is applied -/

namespace Entity

variable {e e' : Entity π} {effect : EffectName}

theorem applied_eq (same : e'.modifiers = e.modifiers) (stat : StatName) :
    e'.applied effect stat = e.applied effect stat := by
  unfold applied
  rw [same]

theorem applied_addModifier [CustomTrigger π] (operators : OperatorTable) (m : Modifier π)
    (stat : StatName) :
    ((e.addModifier operators m).applied effect stat).Perm
      (if m.source = some (SourceTag.ofEffect effect) ∧ m.stat = stat then m :: e.applied effect stat
        else e.applied effect stat) := by
  unfold applied
  change ((e.modifiers.insert operators m).get stat |>.filter _).Perm _
  rw [ModifierLists.get_insert]
  split
  · rename_i here
    refine ((ModifierLists.place_perm operators m _).filter _).trans (.of_eq ?_)
    rw [List.filter_cons]
    simp [here]
  · rename_i elsewhere
    rw [if_neg fun both => elsewhere both.2.symm]

theorem applied_modify {stat : StatName} {id : Handle} {change : Modifier π → Modifier π}
    (same : ∀ m, e.modifiers.find? stat id = some m →
      (change m).source = m.source ∧ (change m).look = m.look) (other : StatName) :
    (applied { e with modifiers := e.modifiers.modify stat id change } effect other).map
      Modifier.look = (e.applied effect other).map Modifier.look := by
  unfold applied
  dsimp only
  rw [ModifierLists.get_modify]
  split
  · rename_i here
    subst here
    apply map_filter_modifyFirst
    intro m found
    obtain ⟨source, look⟩ := same m found
    exact ⟨by rw [source], look⟩
  · rfl

theorem applied_dropModifier? {stat : StatName} {id : Handle} {m : Modifier π}
    (found : e.modifiers.find? stat id = some m) (dropped : e.dropModifier? stat id = some e')
    (other : StatName) :
    (e.applied effect other).Perm
      (if other = stat ∧ m.source = some (SourceTag.ofEffect effect) then
        m :: e'.applied effect other else e'.applied effect other) := by
  obtain ⟨⟨_, modifiers⟩, removed, rfl⟩ := Option.map_eq_some_iff.1 dropped
  unfold applied
  change List.Perm _ (if _ then m :: (modifiers.get other).filter _ else (modifiers.get other).filter _)
  rw [ModifierLists.get_remove? removed]
  by_cases here : other = stat
  · subst here
    refine ((perm_cons_eraseP found).filter _).trans (.of_eq ?_)
    rw [List.filter_cons, if_pos rfl]
    simp
  · rw [if_neg here, if_neg fun both => here both.1]

theorem applied_dropModifiersOf (source : SourceTag) (stat : StatName) :
    (e.dropModifiersOf source).applied effect stat =
      if source = SourceTag.ofEffect effect then [] else e.applied effect stat := by
  unfold applied
  rw [get_dropModifiersOf, List.filter_filter]
  split
  · rename_i own
    apply List.filter_eq_nil_iff.2
    intro m _ both
    simp [own] at both
  · rename_i other
    apply List.filter_congr
    intro m _
    by_cases stems : m.source = some (SourceTag.ofEffect effect)
    · simp [stems, Ne.symm other]
    · simp [stems]

theorem applied_setCondition (owner : Owner) (c : Condition π) (stat : StatName) :
    ((e.setCondition owner c).applied effect stat).map Modifier.look =
      (e.applied effect stat).map Modifier.look := by
  cases owner with
  | modifier other id =>
      apply applied_modify
      exact fun _ _ => ⟨rfl, rfl⟩
  | stack effect id => rfl
  | custom effect serial index => rfl

/-! ### What is due -/

variable {d : EffectDefinition π}

theorem due_eq (same : e'.effects = e.effects) : e'.due d = e.due d := by
  unfold due
  rw [same]

/-- What is due depends only on whether the effect applies and on its count. -/
theorem due_of_standing (same : (e'.effects.get? d.effect).map (fun live => (live.active, live.count)) =
    (e.effects.get? d.effect).map fun live => (live.active, live.count)) : e'.due d = e.due d := by
  unfold due
  cases before : e.effects.get? d.effect with
  | none =>
      rw [before, Option.map_none, Option.map_eq_none_iff] at same
      rw [same]
  | some live =>
      rw [before, Option.map_some, Option.map_eq_some_iff] at same
      obtain ⟨live', there, equal⟩ := same
      obtain ⟨active, count⟩ := Prod.mk.inj equal
      rw [there]
      dsimp only
      rw [active, count]

theorem due_of_modify {name : EffectName} {change : LiveEffect π → LiveEffect π}
    (changed : e'.effects = e.effects.modify name change)
    (same : ∀ live, (change live).active = live.active ∧ (change live).count = live.count) :
    e'.due d = e.due d := by
  apply due_of_standing
  rw [changed, Table.get?_modify]
  split
  · rw [Option.map_map]
    congr 1
    funext live
    obtain ⟨active, count⟩ := same live
    change ((change live).active, (change live).count) = _
    rw [active, count]
  · rfl

theorem due_setCondition (owner : Owner) (c : Condition π) :
    (e.setCondition owner c).due d = e.due d := by
  cases owner with
  | modifier stat id => rfl
  | stack effect id =>
      have changed : (e.setCondition (.stack effect id) c).effects = e.effects.modify effect
          fun live => live.modifyStack id fun s => { s with duration := c } := rfl
      exact due_of_modify changed fun _ => ⟨rfl, rfl⟩
  | custom effect serial index =>
      have changed : (e.setCondition (.custom effect serial index) c).effects =
          e.effects.modify effect fun live => if live.serial = serial then
            { live with conditions := live.conditions.set index c } else live := rfl
      refine due_of_modify changed fun live => ?_
      split
      · exact ⟨rfl, rfl⟩
      · exact ⟨rfl, rfl⟩

/-- An effect that becomes live owes nothing yet. -/
theorem due_addEffect [CustomTrigger π] {live : LiveEffect π}
    (absent : e.effects.get? live.effect = none) (idle : live.active = false)
    (armed : List (Condition π)) : (e.addEffect live armed).due d = e.due d := by
  unfold due
  rw [addEffect_effects, Table.get?_insert]
  by_cases here : d.effect = live.effect
  · rw [if_pos here, here, absent]
    dsimp only
    rw [idle, if_neg (by decide)]
  · rw [if_neg here]

theorem due_dropEffect (live : LiveEffect π) (name : EffectName) :
    (e.dropEffect name live).due d = if d.effect = name then [] else e.due d := by
  unfold due
  rw [dropEffect_effects, Table.get?_erase]
  by_cases here : d.effect = name
  · rw [if_pos here, if_pos here]
  · rw [if_neg here, if_neg here]

/-! ### Changes that neither move what is applied nor what is due -/

structure Unmoved (d : EffectDefinition π) (e e' : Entity π) : Prop where
  applied : ∀ stat, ((e'.applied d.effect stat).map Modifier.look).Perm
    ((e.applied d.effect stat).map Modifier.look)
  due : e'.due d = e.due d

namespace Unmoved

theorem of_modifiers (same : e'.modifiers = e.modifiers) (due : e'.due d = e.due d) :
    Unmoved d e e' where
  applied stat := .of_eq (by rw [applied_eq same])
  due := due

theorem of_same (modifiers : e'.modifiers = e.modifiers) (effects : e'.effects = e.effects) :
    Unmoved d e e' :=
  .of_modifiers modifiers (due_eq effects)

theorem trans {e₁ e₂ e₃ : Entity π} (first : Unmoved d e₁ e₂) (second : Unmoved d e₂ e₃) :
    Unmoved d e₁ e₃ where
  applied stat := (second.applied stat).trans (first.applied stat)
  due := second.due.trans first.due

theorem setCondition (e : Entity π) (owner : Owner) (c : Condition π) :
    Unmoved d e (e.setCondition owner c) where
  applied stat := .of_eq (applied_setCondition owner c stat)
  due := due_setCondition owner c

/-! #### Modifiers -/

theorem addModifier [CustomTrigger π] (e : Entity π) (operators : OperatorTable) {m : Modifier π}
    (other : m.source ≠ some (SourceTag.ofEffect d.effect)) :
    Unmoved d e (e.addModifier operators m) where
  applied stat := by
    refine ((applied_addModifier operators m stat).map _).trans (.of_eq ?_)
    rw [if_neg fun both => other both.1]
  due := rfl

theorem updateModifier {stat : StatName} {id : Handle} {m : Modifier π}
    (found : e.modifiers.find? stat id = some m) :
    Unmoved d e (e.updateModifier stat id m.refresh.1) where
  applied other := by
    refine .of_eq (applied_modify (fun x there => ?_) other)
    rw [found] at there
    cases there
    exact ⟨rfl, rfl⟩
  due := rfl

theorem dropModifier? {stat : StatName} {id : Handle} {m : Modifier π}
    (found : e.modifiers.find? stat id = some m) (dropped : e.dropModifier? stat id = some e')
    (other : m.source ≠ some (SourceTag.ofEffect d.effect)) : Unmoved d e e' where
  applied stat := by
    have left : (e.applied d.effect stat).Perm _ := applied_dropModifier? found dropped stat
    rw [if_neg fun both => other both.2] at left
    exact (left.map _).symm
  due := by
    obtain ⟨_, _, rfl⟩ := Option.map_eq_some_iff.1 dropped
    rfl

theorem dropModifiersOf (e : Entity π) {source : SourceTag}
    (other : source ≠ SourceTag.ofEffect d.effect) : Unmoved d e (e.dropModifiersOf source) where
  applied stat := .of_eq (by rw [applied_dropModifiersOf, if_neg other])
  due := due_eq (dropModifiersOf_effects e source)

/-! #### Stacks and effects -/

theorem modifyEffect (e : Entity π) (effect : EffectName) {change : LiveEffect π → LiveEffect π}
    (same : ∀ live, (change live).active = live.active ∧ (change live).count = live.count) :
    Unmoved d e (e.modifyEffect effect change) :=
  .of_modifiers rfl (due_of_modify rfl same)

theorem storeCount (e : Entity π) {effect : EffectName} (other : d.effect ≠ effect)
    (count : UInt32) (active : Bool) : Unmoved d e (e.storeCount effect count active) := by
  refine .of_modifiers rfl (due_of_standing ?_)
  rw [Entity.storeCount, get?_modifyEffect, if_neg other]

theorem detachStack? {effect : EffectName} {id : Handle}
    (detached : e.detachStack? effect id = some e') : Unmoved d e e' := by
  obtain ⟨live, s, found, _, rfl⟩ := detachStack?_eq_some detached
  refine .of_modifiers rfl (due_of_standing ?_)
  change ((e.effects.insert effect _).get? d.effect).map _ = _
  rw [Table.get?_insert]
  split
  · rename_i here
    rw [here, found]
    rfl
  · rfl

theorem detachStacks (e : Entity π) (effect : EffectName) (ids : List Handle) :
    Unmoved d e (e.detachStacks effect ids).2 :=
  detachStacks_induct effect (fun _ _ _ detached before => before.trans (.detachStack? detached))
    ids (.of_same rfl rfl)

theorem addEffect [CustomTrigger π] {live : LiveEffect π}
    (absent : e.effects.get? live.effect = none) (idle : live.active = false)
    (armed : List (Condition π)) : Unmoved d e (e.addEffect live armed) :=
  .of_modifiers (addEffect_stats e live armed).2 (due_addEffect absent idle armed)

theorem dropEffect (e : Entity π) {effect : EffectName} (other : d.effect ≠ effect)
    (live : LiveEffect π) : Unmoved d e (e.dropEffect effect live) :=
  .of_modifiers (dropEffect_stats e effect live).2 (by rw [due_dropEffect, if_neg other])

end Unmoved

end Entity

end StatusEffects
