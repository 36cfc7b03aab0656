import StatusEffects.Proofs.Arrangement
import StatusEffects.Proofs.Renewal

/-!
The shares that owners have in the modifiers of a stat.

The modifiers that an effect applies are its share; all others are plain. A share keeps its order
when something is added or taken out beside it, and the share of an effect is known from its count
and from what its templates come to.
-/

set_option autoImplicit false

namespace StatusEffects

variable {π : Type}

/-! ### Kernels and patrons -/

def Modifier.kernel (m : Modifier π) : Modifier π := { m with id := 0, attached := false }

def Stack.kernel (s : Stack π) : Stack π := { s with id := 0, attached := false }

namespace Modifier

@[simp] theorem kernel_stat (m : Modifier π) : m.kernel.stat = m.stat := rfl

@[simp] theorem kernel_op (m : Modifier π) : m.kernel.op = m.op := rfl

@[simp] theorem kernel_source (m : Modifier π) : m.kernel.source = m.source := rfl

@[simp] theorem gist_kernel (m : Modifier π) : m.kernel.gist = m.gist := rfl

/-- The tag of the effect that applies the modifier; plain modifiers have none. -/
def patron (m : Modifier π) : Option SourceTag := m.source.filter SourceTag.isOfEffect

@[simp] theorem patron_kernel (m : Modifier π) : m.kernel.patron = m.patron := rfl

theorem patron_of_ofEffect {m : Modifier π} {effect : EffectName}
    (sourced : m.source = some (SourceTag.ofEffect effect)) :
    m.patron = some (SourceTag.ofEffect effect) := by
  unfold patron
  rw [sourced, Option.filter_some, if_pos (SourceTag.isOfEffect_ofEffect effect)]

end Modifier

namespace Entity

variable {e e' : Entity π} {owns : Option SourceTag → Bool} {stat : StatName}

def share (e : Entity π) (owns : Option SourceTag → Bool) (stat : StatName) : List (Modifier π) :=
  ((e.modifiers.get stat).filter fun m => owns m.source).map Modifier.kernel

theorem share_of_modifiers (same : e'.modifiers = e.modifiers) :
    e'.share owns stat = e.share owns stat := by
  unfold share
  rw [same]

def ofEffect (effect : EffectName) (source : Option SourceTag) : Bool :=
  source = some (SourceTag.ofEffect effect)

def plain (source : Option SourceTag) : Bool := !source.any SourceTag.isOfEffect

theorem patron_eq_none {m : Modifier π} : m.patron = none ↔ plain m.source = true := by
  unfold Modifier.patron plain
  cases m.source with
  | none => exact iff_of_true rfl rfl
  | some tag =>
      rw [Option.filter_some, Option.any_some]
      cases tag.isOfEffect with
      | false => exact iff_of_true rfl rfl
      | true => exact iff_of_false nofun nofun

theorem patron_eq_some {m : Modifier π} {tag : SourceTag} :
    m.patron = some tag ↔ m.source = some tag ∧ ∃ effect, tag = SourceTag.ofEffect effect := by
  unfold Modifier.patron
  rw [Option.filter_eq_some_iff, SourceTag.isOfEffect_iff]

theorem share_addModifier [CustomTrigger π] {operators : OperatorTable}
    (ranked : e.Ranked operators) (m : Modifier π) :
    (e.addModifier operators m).share owns stat =
      if stat = m.stat ∧ owns m.source = true then
        ModifierLists.place operators m.kernel (e.share owns stat)
      else e.share owns stat := by
  unfold share
  change (((e.modifiers.insert operators m).get stat).filter _).map Modifier.kernel = _
  rw [ModifierLists.get_insert]
  by_cases here : stat = m.stat
  · rw [if_pos here, OperatorTable.filter_place (ranked stat)]
    by_cases owned : owns m.source = true
    · rw [if_pos owned, if_pos ⟨here, owned⟩, OperatorTable.map_place Modifier.kernel_op]
    · rw [if_neg owned, if_neg fun both => owned both.2]
  · rw [if_neg here, if_neg fun both => here both.1]

/-- When the modifiers of a source go, the shares of others stay. -/
theorem share_of_rest {source : SourceTag} (rest : e'.modifiers.get stat =
      (e.modifiers.get stat).filter fun m => m.source ≠ some source)
    (others : owns (some source) = false) : e'.share owns stat = e.share owns stat := by
  unfold share
  rw [rest, List.filter_filter]
  congr 1
  refine List.filter_congr fun m _ => ?_
  by_cases own : m.source = some source
  · simp [own, others]
  · simp [own]

theorem share_of_gone {effect : EffectName} (rest : e'.modifiers.get stat =
      (e.modifiers.get stat).filter fun m => m.source ≠ some (SourceTag.ofEffect effect)) :
    e'.share (ofEffect effect) stat = [] := by
  unfold share
  rw [rest, List.filter_filter, List.filter_eq_nil_iff.2, List.map_nil]
  intro m _ both
  simp [ofEffect] at both

end Entity

/-! ### What effects owe -/

section

variable [CustomTrigger π]

def Modifier.renewed (m : Modifier π) (r : Readings) (effect : EffectName) : Modifier π :=
  m.pristine.attach r (some (SourceTag.ofEffect effect))

/-- The modifiers that an effect would apply to a stat if it were renewed, in their order. -/
def Entity.owed (rules : Rulebook π) (r : Readings) (e : Entity π) (effect : EffectName)
    (stat : StatName) : List (Modifier π) :=
  match rules.effects.get? effect with
  | some d => rules.operators.placed
      (((e.due d).filter fun m => m.stat = stat).map fun m => m.renewed r effect)
  | none => []

theorem Entity.owed_of_registered {rules : Rulebook π} {r : Readings} {e : Entity π}
    {d : EffectDefinition π} (registered : rules.effects.get? d.effect = some d)
    (stat : StatName) : e.owed rules r d.effect stat = rules.operators.placed
      (((e.due d).filter fun m => m.stat = stat).map fun m => m.renewed r d.effect) := by
  unfold owed
  rw [registered]

end

end StatusEffects
