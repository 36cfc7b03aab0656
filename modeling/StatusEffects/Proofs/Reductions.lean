import StatusEffects.Proofs.Counter
import StatusEffects.Proofs.CustomEffectCalls
import StatusEffects.Proofs.Stacking

/-!
What a reduction takes.

The amount comes off the stacks that nobody owns, newest first, so what is left of them is what the
oldest of them keep of the total that is left. The stacks of others stay as they are. As long as some
stack is left, nothing but the count changes with them; when none is left, the effect goes, and with it
the modifiers under its name.
-/

set_option autoImplicit false

namespace StatusEffects

variable {π : Type}

/-! ### Rationing -/

namespace Stack

/-- What stacks, oldest first, keep of a total: each as much of its value as the earlier ones leave. -/
def ration (left : Nat) (held : List (Stack π)) : List (Stack π) :=
  held.mapIdx fun index s =>
    { s with value := (min s.value.toNat (left - total (held.take index))).toUInt32 }

variable {left : Nat} {s : Stack π} {held : List (Stack π)}

theorem ration_nil : ration left ([] : List (Stack π)) = [] := rfl

theorem ration_cons : ration left (s :: held) =
    { s with value := (min s.value.toNat left).toUInt32 } :: ration (left - s.value.toNat) held := by
  unfold ration
  rw [List.mapIdx_cons]
  simp only [List.take_zero, total_nil, Nat.sub_zero, List.take_succ_cons, total_cons, Nat.sub_sub]

theorem ration_concat : ration left (held ++ [s]) = ration left held ++
    [{ s with value := (min s.value.toNat (left - total held)).toUInt32 }] := by
  induction held generalizing left with
  | nil => simp [ration_cons, ration_nil]
  | cons first rest ih =>
      rw [List.cons_append, ration_cons, ration_cons, ih, total_cons, Nat.sub_sub, List.cons_append]

/-- Stacks keep no more than there is of them. -/
theorem ration_min : ration (min left (total held)) held = ration left held := by
  induction held generalizing left with
  | nil => rfl
  | cons first rest ih =>
      have own : min first.value.toNat (min left (first.value.toNat + total rest)) =
          min first.value.toNat left := by omega
      have others : min (min left (first.value.toNat + total rest) - first.value.toNat) (total rest) =
          min (left - first.value.toNat) (total rest) := by omega
      rw [ration_cons, ration_cons, total_cons, own, ← ih, others, ih]

theorem ration_total (enough : total held ≤ left) : ration left held = held := by
  induction held generalizing left with
  | nil => rfl
  | cons first rest ih =>
      rw [total_cons] at enough
      have whole : (min first.value.toNat left).toUInt32 = first.value := by
        rw [Nat.min_eq_left (by omega)]
        exact UInt32.ofNat_toNat
      rw [ration_cons, whole, ih (by omega)]

theorem total_ration : total (ration left held) = min left (total held) := by
  induction held generalizing left with
  | nil => exact (Nat.min_zero left).symm
  | cons first rest ih =>
      have small : min first.value.toNat left < UInt32.size :=
        Nat.lt_of_le_of_lt (Nat.min_le_left ..) first.value.toNat_lt
      have own : ((min first.value.toNat left).toUInt32).toNat = min first.value.toNat left :=
        UInt32.toNat_ofNat_of_lt' small
      rw [ration_cons, total_cons, total_cons, ih, own]
      omega

end Stack

/-- Taking an amount off stacks, newest first, leaves the older ones what the total without the amount
gives them. -/
theorem drawDown_rations (amount : UInt32) (held : List (Stack π)) :
    (Stack.sourceless (Engine.drawDown amount held).1).reverse =
      Stack.ration (Stack.total (Stack.sourceless held) - amount.toNat)
        (Stack.sourceless held).reverse := by
  induction held generalizing amount with
  | nil => rfl
  | cons s rest ih =>
      cases sourced : s.isSourced with
      | true =>
          rw [drawDown_cons_sourced amount sourced, Stack.sourceless_cons_sourced sourced,
            Stack.sourceless_cons_sourced sourced]
          exact ih amount
      | false =>
          obtain ⟨kept, owed⟩ := toNat_sub_min s.value amount
          have unowned : ({ s with value := s.value - min s.value amount } : Stack π).isSourced =
              false := sourced
          -- The newest stack comes first here and last among those that are rationed.
          have earlier := ih (amount - min s.value amount)
          have total := Stack.total_reverse (Stack.sourceless rest)
          rw [(drawDown_cons amount sourced rest).1, Stack.sourceless_cons unowned,
            Stack.sourceless_cons sourced, List.reverse_cons, List.reverse_cons, earlier,
            Stack.ration_concat, Stack.total_cons]
          generalize Stack.total (Stack.sourceless rest) = older at total
          have value : s.value - min s.value amount =
              (min s.value.toNat (s.value.toNat + older - amount.toNat - older)).toUInt32 := by
            rw [show min s.value.toNat (s.value.toNat + older - amount.toNat - older) =
              s.value.toNat - amount.toNat by omega, ← kept]
            exact UInt32.ofNat_toNat.symm
          have others : older - (amount - min s.value amount).toNat =
              min (s.value.toNat + older - amount.toNat) older := by omega
          rw [others, total, ← value]
          congr 1
          rw [← total]
          exact Stack.ration_min

/-- Taking an amount off stacks leaves those of others alone. -/
theorem drawDown_owned (amount : UInt32) (held : List (Stack π)) :
    (Engine.drawDown amount held).1.filter Stack.isSourced = held.filter Stack.isSourced := by
  induction held generalizing amount with
  | nil => rfl
  | cons s rest ih =>
      cases sourced : s.isSourced with
      | true =>
          rw [drawDown_cons_sourced amount sourced, List.filter_cons_of_pos sourced,
            List.filter_cons_of_pos sourced, ih]
      | false =>
          have unowned : ({ s with value := s.value - min s.value amount } : Stack π).isSourced ≠
              true := Bool.eq_false_iff.1 sourced
          rw [(drawDown_cons amount sourced rest).1, List.filter_cons_of_neg unowned,
            List.filter_cons_of_neg (Bool.eq_false_iff.1 sourced), ih]

/-! ### Stacks of which something was taken -/

namespace Stack

/-- Something was taken off stacks: those of others are as they were, and of the rest the oldest keep
what is left, as far as they keep anything. -/
structure Reduced (taken : Nat) (held held' : List (Stack π)) : Prop where
  sourced : held'.filter isSourced = held.filter isSourced
  sourceless : sourceless held' = (ration (total (sourceless held) - taken) (sourceless held)).filter
    fun s => s.value ≠ 0

namespace Reduced

variable {taken : Nat} {held held' : List (Stack π)}

theorem total_eq (reduced : Reduced taken held held') :
    total (Stack.sourceless held') = total (Stack.sourceless held) - taken := by
  rw [reduced.sourceless, total_filter fun s _ zero => by simpa using zero, total_ration]
  omega

theorem least (reduced : Reduced taken held held') :
    Reduced (min taken (total (Stack.sourceless held))) held held' := by
  have same : total (Stack.sourceless held) - min taken (total (Stack.sourceless held)) =
      total (Stack.sourceless held) - taken := by omega
  refine ⟨reduced.sourced, ?_⟩
  rw [same]
  exact reduced.sourceless

theorem zero (positive : ∀ s ∈ held, s.isSourced = false → 0 < s.value) : Reduced 0 held held := by
  refine ⟨rfl, ?_⟩
  rw [Nat.sub_zero, ration_total (Nat.le_refl _), List.filter_eq_self.2]
  intro s member
  obtain ⟨there, unowned⟩ := mem_sourceless.1 member
  rw [decide_eq_true_iff]
  rintro empty
  exact absurd (positive s there unowned) (by rw [empty]; decide)

/-- Nothing is left exactly if no stack has an owner and there is no more than was taken. -/
theorem eq_nil_iff (reduced : Reduced taken held held')
    (positive : ∀ s ∈ held', s.isSourced = false → 0 < s.value) :
    held' = [] ↔ (∀ s ∈ held, s.isSourced = false) ∧ total held ≤ taken := by
  have sum := reduced.total_eq
  constructor
  · rintro rfl
    have unowned : ∀ s ∈ held, s.isSourced = false := fun s member =>
      Bool.eq_false_iff.2 (List.filter_eq_nil_iff.1 reduced.sourced.symm s member)
    rw [sourceless_eq unowned] at sum
    exact ⟨unowned, Nat.sub_eq_zero_iff_le.1 sum.symm⟩
  · rintro ⟨unowned, most⟩
    have none : held.filter isSourced = [] := List.filter_eq_nil_iff.2 fun s member =>
      Bool.eq_false_iff.1 (unowned s member)
    have unowned' : ∀ s ∈ held', s.isSourced = false := fun s member =>
      Bool.eq_false_iff.2 (List.filter_eq_nil_iff.1 (reduced.sourced.trans none) s member)
    rw [sourceless_eq unowned, sourceless_eq unowned', Nat.sub_eq_zero_of_le most] at sum
    refine List.eq_nil_iff_forall_not_mem.2 fun s member => ?_
    have some := UInt32.lt_iff_toNat_lt.1 (positive s member (unowned' s member))
    exact absurd (value_le_total member) (Nat.not_le.2 (sum ▸ some))

theorem nil : Reduced taken ([] : List (Stack π)) [] := ⟨rfl, rfl⟩

end Reduced

theorem total_perm {held held' : List (Stack π)} (perm : held.Perm held') :
    total held = total held' :=
  (perm.map _).sum_eq

theorem total_owned_add (held : List (Stack π)) :
    total (held.filter isSourced) + total (sourceless held) = total held := by
  rw [← total_append]
  exact total_perm (List.filter_append_perm isSourced held)

end Stack

section

variable {d : EffectDefinition π} {live : LiveEffect π} {amount left : UInt32}
  {held : List (Stack π)} {emptied : List Handle}

namespace LiveEffect

/-- What counts are the stacks that nobody owns, and the active ones of others. -/
theorem Stocked.activeSum_eq (stocked : live.Stocked d) :
    live.activeSum = Stack.total ((live.held.filter Stack.isSourced).filter Stack.active) +
      Stack.total (Stack.sourceless live.held) := by
  rw [LiveEffect.activeSum_eq, ← Stack.total_owned_add, List.filter_comm, stocked.sourceless_active]

/-- The count comes down by what was taken. -/
theorem Stocked.activeSum_add {after : LiveEffect π} {taken : Nat} (stocked : live.Stocked d)
    (stocked' : after.Stocked d) (reduced : Stack.Reduced taken live.held after.held)
    (most : taken ≤ Stack.total (Stack.sourceless live.held)) :
    after.activeSum + taken = live.activeSum := by
  rw [stocked.activeSum_eq, stocked'.activeSum_eq, reduced.sourced, reduced.total_eq]
  omega

variable (stocked : live.Stocked d) (distinct : (live.held.map Stack.id).Nodup)
  (drawn : Engine.drawDown amount live.held.reverse = (held, left, emptied))

include stocked distinct drawn

theorem Stocked.drawn_reduced : Stack.Reduced amount.toNat live.held
    (LiveEffect.without { live with held := held.reverse } emptied).held := by
  -- Which stacks go is a matter of handles in the code; no two stacks share one.
  have keeps {s : Stack π} (member : s ∈ held.reverse) :
      decide (s.id ∉ emptied) = (s.isSourced || decide (s.value ≠ 0)) := by
    rw [Bool.eq_iff_iff, decide_eq_true_iff,
      stocked.mem_emptied distinct drawn (List.mem_reverse.1 member)]
    cases s.isSourced <;> simp
  constructor
  · have owned := drawDown_owned amount live.held.reverse
    rw [drawn, List.filter_reverse] at owned
    have same : (held.reverse.filter fun s => s.id ∉ emptied).filter Stack.isSourced =
        held.reverse.filter Stack.isSourced := by
      rw [List.filter_filter]
      refine List.filter_congr fun s member => ?_
      rw [keeps member]
      cases s.isSourced <;> rfl
    refine same.trans ?_
    rw [List.filter_reverse, owned, List.reverse_reverse]
  · have same : Stack.sourceless (held.reverse.filter fun s => s.id ∉ emptied) =
        (Stack.sourceless held).reverse.filter fun s => s.value ≠ 0 := by
      unfold Stack.sourceless
      rw [← List.filter_reverse, List.filter_filter, List.filter_filter]
      refine List.filter_congr fun s member => ?_
      rw [keeps member]
      cases s.isSourced <;> simp
    have left := drawDown_rations amount live.held.reverse
    rw [drawn, Stack.sourceless_reverse, Stack.total_reverse, List.reverse_reverse] at left
    exact same.trans (congrArg _ left)

end LiveEffect

end

namespace Entity

structure Reduced (effect : EffectName) (amount taken : UInt32) (e e' : Entity π) : Prop where
  told : taken.toNat = min amount.toNat (Stack.total (Stack.sourceless (e.held effect)))
  held : Stack.Reduced taken.toNat (e.held effect) (e'.held effect)
  count : (e'.activeCount effect).toNat + taken.toNat = (e.activeCount effect).toNat
  live : e'.effects.contains effect = true ↔ e'.held effect ≠ []

structure Exhausted (effect : EffectName) (amount : UInt32) (e : Entity π) : Prop where
  live : e.effects.contains effect = true
  unowned : ∀ s ∈ e.held effect, s.isSourced = false
  total : Stack.total (e.held effect) ≤ amount.toNat

/-- An effect goes, and nothing else of what is in force. -/
structure Loses (effect : EffectName) (e e' : Entity π) : Prop where
  effects : e'.effects = e.effects.erase effect
  modifiers : e'.modifiers = e.modifiers
  values : e'.values = e.values

variable {d : EffectDefinition π} {amount taken : UInt32} {e e' : Entity π} {live after : LiveEffect π}

theorem activeCount_of_found {effect : EffectName} (found : e.effects.get? effect = some live) :
    e.activeCount effect = live.count := by
  unfold activeCount
  rw [found]
  rfl

theorem held_of_absent {effect : EffectName} (absent : e.effects.get? effect = none) :
    e.held effect = [] := by
  unfold held
  rw [absent]
  rfl

theorem contains_iff_of_absent {effect : EffectName} (absent : e.effects.get? effect = none) :
    e.effects.contains effect = true ↔ e.held effect ≠ [] := by
  rw [held_of_absent absent, Table.contains, absent]
  exact ⟨fun lives => (by cases lives), fun some => absurd rfl some⟩

theorem Reduced.of_absent {effect : EffectName} (absent : e.effects.get? effect = none) :
    e.Reduced effect amount 0 e := by
  have none := held_of_absent absent
  refine ⟨?_, ?_, rfl, contains_iff_of_absent absent⟩
  · rw [none]
    exact (Nat.min_zero _).symm
  · rw [none]
    exact .nil

section

variable (found : e.effects.get? d.effect = some live) (stocked : live.Stocked d)
  (counted : live.count.toNat = live.activeSum)
  (told : taken.toNat = min amount.toNat (Stack.total (Stack.sourceless live.held)))

include found stocked counted told

theorem Reduced.of_live (there : e'.effects.get? d.effect = some after) (filled : after.held ≠ [])
    (stocked' : after.Stocked d) (counted' : after.count.toNat = after.activeSum)
    (reduced : Stack.Reduced taken.toNat live.held after.held) :
    e.Reduced d.effect amount taken e' := by
  have most : taken.toNat ≤ Stack.total (Stack.sourceless live.held) := told ▸ Nat.min_le_right ..
  refine ⟨?_, ?_, ?_, ?_⟩
  · rw [held_of_found found]
    exact told
  · rw [held_of_found found, held_of_found there]
    exact reduced
  · rw [activeCount_of_found found, activeCount_of_found there, counted, counted']
    exact stocked.activeSum_add stocked' reduced most
  · rw [held_of_found there, Table.contains, there]
    exact ⟨fun _ => filled, fun _ => rfl⟩

theorem Reduced.of_gone (gone : e'.effects.get? d.effect = none)
    (reduced : Stack.Reduced taken.toNat live.held []) : e.Reduced d.effect amount taken e' := by
  have most : taken.toNat ≤ Stack.total (Stack.sourceless live.held) := told ▸ Nat.min_le_right ..
  refine ⟨?_, ?_, ?_, contains_iff_of_absent gone⟩
  · rw [held_of_found found]
    exact told
  · rw [held_of_found found, held_of_absent gone]
    exact reduced
  · have empty : LiveEffect.Stocked d { live with held := [] } :=
      stocked.sublist (List.nil_sublist _)
    have sum := stocked.activeSum_add empty reduced most
    rw [activeCount_of_found found, counted, ← sum, Entity.activeCount, gone]
    rfl

end

end Entity

namespace Engine

open Act

theorem settleEnd_run (nested : Nested π) (rules : Rulebook π) {effect : EffectName} {v : Verdict}
    {live : LiveEffect π} {w : World π} (found : w.entity.effects.get? effect = some live)
    (empty : live.held = []) (zero : v.count = 0) :
    ∃ w₁, w₁.entity = w.entity.dropEffect effect live ∧ settleEnd nested rules effect v w =
      (do
        let _ ← removeModifiersOf nested (SourceTag.ofEffect effect)
        if live.active then announceFlip nested rules effect false) w₁ := by
  have drains : (drain effect).Brings w.entity () w.entity :=
    drain_brings found (empty ▸ List.forall_mem_nil _)
  obtain ⟨w₁, drains, same⟩ := drains w rfl
  obtain ⟨w₂, left, run⟩ := removeIfEmpty_run nested rules (same ▸ found) empty
  refine ⟨w₂, same ▸ left, ?_⟩
  rw [settleEnd, if_pos zero, bind_run drains, run]

structure Recounted (d : EffectDefinition π) (taken : Nat) (live after : LiveEffect π)
    (e e' : Entity π) : Prop where
  tidy : e'.Tidy
  found : e'.effects.get? d.effect = some after
  stocked : after.Stocked d
  counted : after.count.toNat = after.activeSum
  reduced : Stack.Reduced taken live.held after.held
  others : e'.effects.erase d.effect = e.effects.erase d.effect
  modifiers : e'.modifiers = e.modifiers
  values : e'.values = e.values

theorem Recounted.loses {d : EffectDefinition π} {taken : Nat} {live after : LiveEffect π}
    {e e' : Entity π} (recounted : Recounted d taken live after e e') :
    e.Loses d.effect (e'.dropEffect d.effect after) := by
  obtain ⟨values, modifiers⟩ := Entity.dropEffect_stats e' d.effect after
  refine ⟨?_, modifiers.trans recounted.modifiers, values.trans recounted.values⟩
  rw [Entity.dropEffect_effects]
  exact recounted.others

section

variable [CustomTrigger π] {nested : Nested π} {rules : Rulebook π} {d : EffectDefinition π}
  {amount left : UInt32} {live : LiveEffect π} {held : List (Stack π)} {emptied : List Handle}
  {w : World π}

variable (registered : rules.effects.get? d.effect = some d) (unhooked : d.Unhooked)
  (bare : d.modifiers = []) (tidy : w.entity.Tidy)
  (found : w.entity.effects.get? d.effect = some live) (stocked : live.Stocked d)
  (counted : live.count.toNat = live.activeSum)

include registered unhooked bare tidy found stocked counted

variable (nested) in
/-- Once something is taken off the stacks of an effect, what remains is to end its settling. -/
theorem reduceStacks_recounts
    (drawn : drawDown amount live.held.reverse = (held, left, emptied)) (some : amount - left ≠ 0) :
    ∃ v after w₁, Recounted d (amount - left).toNat live after w.entity w₁.entity ∧
      v.count = after.count ∧ reduceStacks nested rules d.effect amount w =
        (do
          settleEnd nested rules d.effect v
          pure (amount - left)) w₁ := by
  have distinct := (tidy.effects _ live found).distinct
  have tidy' := tidy.setDrawn found (drawDown_reverse drawn)
  let kept : LiveEffect π := .without { live with held := held.reverse } emptied
  have stocked' : kept.Stocked d := stocked.reduced distinct drawn
  have told := drawDown_taken drawn
  have reduced : Stack.Reduced (amount - left).toNat live.held kept.held := by
    rw [told]
    exact (stocked.drawn_reduced distinct drawn).least
  have sum := stocked.activeSum_add stocked' reduced (told ▸ Nat.min_le_right ..)
  have bounded : kept.activeSum < UInt32.size := by
    have most : kept.activeSum ≤ live.activeSum := sum ▸ Nat.le_add_right ..
    exact Nat.lt_of_le_of_lt most (counted ▸ live.count.toNat_lt)
  obtain ⟨w₁, same, run⟩ := reduceStacks_run nested rules found drawn some
  obtain ⟨v, count, runs⟩ := settle_run nested registered unhooked bare
    (tidy.get?_drawn found drawn) bounded
  obtain ⟨w₂, same₂, run₂⟩ := runs w₁ same
  obtain ⟨values, modifiers⟩ :=
    Entity.detachStacks_stats (w.entity.setStacks d.effect held.reverse) d.effect emptied
  refine ⟨v, { kept with count := v.count, active := v.active }, w₂, ?_, rfl, ?_⟩
  · rw [same₂]
    refine ⟨?_, ?_, { stocked' with }, ?_, reduced, ?_, modifiers, values⟩
    · exact (tidy'.detachStacks ..).storeCount ..
    · exact Entity.get?_storeCount (tidy.get?_drawn found drawn) ..
    · change v.count.toNat = kept.activeSum
      rw [count]
      exact UInt32.toNat_ofNat_of_lt' bounded
    · rw [Entity.storeCount, Entity.modifyEffect, Table.erase_modify, tidy'.effects_detachStacks,
        Table.erase_modify, Entity.setStacks, Entity.modifyEffect, Table.erase_modify]
  · rw [run]
    exact bind_congr_run _ run₂

variable (nested) in
/-- As long as some stack is left the call comes back, and the effect stays. -/
theorem reduceStacks_leaves (filled : live.held ≠ [])
    (spared : ¬w.entity.Exhausted d.effect amount) :
    ∃ taken w', reduceStacks nested rules d.effect amount w = .ok taken w' ∧
      w.entity.Reduced d.effect amount taken w'.entity ∧ (taken = 0 → w' = w) := by
  rcases drawn : drawDown amount live.held.reverse with ⟨held, left, emptied⟩
  have told := drawDown_taken drawn
  by_cases none : amount - left = 0
  · rw [none] at told
    exact ⟨0, w, reduceStacks_run_none found drawn none, .of_live found stocked counted told found
      filled stocked counted (.zero stocked.positive), fun _ => rfl⟩
  · obtain ⟨v, after, w₁, recounted, count, run⟩ :=
      reduceStacks_recounts nested registered unhooked bare tidy found stocked counted drawn none
    have filled' : after.held ≠ [] := by
      rw [Ne, recounted.reduced.eq_nil_iff recounted.stocked.positive, told]
      rintro ⟨unowned, most⟩
      rw [← Entity.held_of_found found] at unowned most
      have lives : w.entity.effects.contains d.effect = true := by
        rw [Table.contains, found]
        rfl
      exact spared ⟨lives, unowned, Nat.le_trans most (Nat.min_le_left ..)⟩
    have drained (zero : v.count = 0) : ∀ s ∈ after.held, s.isSourced = true := by
      have sum := recounted.counted.symm.trans (congrArg UInt32.toNat (count.symm.trans zero))
      rw [LiveEffect.activeSum_eq] at sum
      exact recounted.stocked.drained (List.Sublist.refl _) sum
    have ends : (settleEnd nested rules d.effect v).Brings w₁.entity () w₁.entity :=
      settleEnd_brings recounted.found filled' drained
    obtain ⟨w₂, ends, same⟩ := ends w₁ rfl
    refine ⟨amount - left, w₂, ?_, ?_, fun zero => absurd zero none⟩
    · rw [run, bind_run ends]
      rfl
    · rw [same]
      exact .of_live found stocked counted told recounted.found filled' recounted.stocked
        recounted.counted recounted.reduced

variable (nested) in
/-- When the amount takes everything the effect goes, and what becomes of the call is what becomes of
taking out the modifiers under its name. -/
theorem reduceStacks_exhausts (filled : live.held ≠ [])
    (exhausted : w.entity.Exhausted d.effect amount) :
    ∃ taken w₁, taken ≠ 0 ∧ w₁.entity.Tidy ∧ w.entity.Loses d.effect w₁.entity ∧
      (∀ e, e.effects.get? d.effect = none → w.entity.Reduced d.effect amount taken e) ∧
      (∀ removed w₂, removeModifiersOf nested (SourceTag.ofEffect d.effect) w₁ = .ok removed w₂ →
        ∃ w', reduceStacks nested rules d.effect amount w = .ok taken w' ∧ w'.entity = w₂.entity) ∧
      ∀ f w₂, removeModifiersOf nested (SourceTag.ofEffect d.effect) w₁ = .error f w₂ →
        reduceStacks nested rules d.effect amount w = .error f w₂ := by
  obtain ⟨-, unowned, most⟩ := exhausted
  rw [Entity.held_of_found found] at unowned most
  rcases drawn : drawDown amount live.held.reverse with ⟨held, left, emptied⟩
  have told := drawDown_taken drawn
  have whole : (amount - left).toNat = Stack.total live.held := by
    rw [told, Stack.sourceless_eq unowned, Nat.min_eq_right most]
  -- A live effect holds a stack, and nobody owns it, so it is worth something.
  have some : amount - left ≠ 0 := by
    intro none
    rw [none] at whole
    exact filled (((Stack.Reduced.zero stocked.positive).eq_nil_iff stocked.positive).2
      ⟨unowned, Nat.le_of_eq whole.symm⟩)
  obtain ⟨v, after, w₁, recounted, count, run⟩ :=
    reduceStacks_recounts nested registered unhooked bare tidy found stocked counted drawn some
  have empty : after.held = [] := (recounted.reduced.eq_nil_iff recounted.stocked.positive).2
    ⟨unowned, Nat.le_of_eq whole.symm⟩
  have zero : v.count = 0 := by
    have sum := recounted.counted
    rw [LiveEffect.activeSum_eq, empty] at sum
    exact count.trans (UInt32.toNat_inj.1 sum)
  obtain ⟨w₂, left', run₂⟩ := settleEnd_run nested rules recounted.found empty zero
  have reduced := recounted.reduced
  rw [empty] at reduced
  refine ⟨amount - left, w₂, some, ?_, ?_, fun e gone => ?_, fun removed w₃ removes => ?_,
    fun f w₃ fails => ?_⟩
  · rw [left']
    exact recounted.tidy.dropEffect ..
  · rw [left']
    exact recounted.loses
  · exact .of_gone found stocked counted told gone reduced
  · have rest : Act.Brings (if after.active then announceFlip nested rules d.effect false else pure ())
        w₃.entity () w₃.entity := by
      split
      · exact announceFlip_brings registered unhooked false _
      · exact .pure () _
    obtain ⟨w', ends, same⟩ := rest w₃ rfl
    refine ⟨w', ?_, same⟩
    rw [run, bind_congr_run _ run₂, bind_run ((bind_run removes).trans ends)]
    rfl
  · rw [run, bind_congr_run _ run₂]
    exact bind_fails (bind_fails fails)

end

/-- Taking out modifiers does not bring back an effect that went. -/
theorem removeModifiersOf_absent [CustomTrigger π] {rules : Rulebook π}
    (hookless : ∀ hook script, ¬rules.Starts hook script) (levels : Nat) (source : SourceTag)
    {effect : EffectName} {w : World π} (tidy : w.entity.Tidy)
    (absent : w.entity.effects.get? effect = none) :
    (removeModifiersOf (serve rules levels) source).Yields w fun _ w' =>
      w'.entity.effects.get? effect = none := by
  intro removed w' returns
  have serves : Serves rules (fun _ => False) (serve rules levels) :=
    serve_charted (fun starts => absurd starts (hookless _ _)) levels
  have ends := removeModifiersOf_charted serves source w
  rw [returns] at ends
  exact Course.absent ends tidy absent

end Engine

/-- In a run without hooks, taking an amount off the stacks of an effect without modifiers takes what
there is of it from the newest stacks that nobody owns. The call comes back unless the amount takes
everything and some modifier goes under the name of the effect; then it comes back if taking out such
modifiers does once the effect is gone, and fails like that otherwise. -/
theorem reduction_newest_first [CustomTrigger π] {rules : Rulebook π} {d : EffectDefinition π}
    {snapshots : Snapshot → Prop} {calls : Entity π → Call π → Prop} {w : World π}
    (reached : Reached rules snapshots calls w)
    (registered : rules.effects.get? d.effect = some d) (bare : d.modifiers = [])
    (hookless : ∀ hook script, ¬rules.Starts hook script) (levels : Nat) (amount : UInt32) :
    ((w.entity.Exhausted d.effect amount → w.entity.Unclaimed d.effect) → ∃ taken w',
      Engine.perform rules levels (.reduceStacks d.effect amount) w = .ok taken w' ∧
      w.entity.Reduced d.effect amount taken w'.entity ∧ (taken = 0 → w' = w)) ∧
    (w.entity.Exhausted d.effect amount → ∃ w₁, w.entity.Loses d.effect w₁.entity ∧
      (∀ removed w₂,
        Engine.perform rules levels (.removeModifiersOf (SourceTag.ofEffect d.effect)) w₁ =
          .ok removed w₂ → ∃ taken w',
        Engine.perform rules levels (.reduceStacks d.effect amount) w = .ok taken w' ∧
        w.entity.Reduced d.effect amount taken w'.entity ∧ taken ≠ 0) ∧
      ∀ f w₂,
        Engine.perform rules levels (.removeModifiersOf (SourceTag.ofEffect d.effect)) w₁ =
          .error f w₂ →
        Engine.perform rules levels (.reduceStacks d.effect amount) w = .error f w₂) := by
  obtain ⟨sound, settled⟩ := reached.settled
  have unhooked := (Rulebook.silent hookless registered).unhooked
  cases found : w.entity.effects.get? d.effect with
  | none =>
      have idle : Engine.perform rules levels (.reduceStacks d.effect amount) w = .ok 0 w :=
        Engine.reduceStacks_run_absent found amount
      refine ⟨fun _ => ⟨0, w, idle, .of_absent found, fun _ => rfl⟩, fun exhausted => ?_⟩
      have lives := exhausted.live
      rw [Table.contains, found] at lives
      cases lives
  | some live =>
      obtain ⟨_, registered', stocked⟩ := sound.stocked d.effect live found
      rw [registered] at registered'
      cases registered'
      have counted := (sound.tallied d.effect live id found).count
      have filled : live.held ≠ [] := fun empty => settled d.effect live.serial
        ⟨live, found, rfl, fun finished => finished.held empty⟩
      have exhausts (exhausted : w.entity.Exhausted d.effect amount) :=
        Engine.reduceStacks_exhausts (Engine.serve rules levels) registered unhooked bare sound.tidy
          found stocked counted filled exhausted
      constructor
      · intro unclaimed
        by_cases exhausted : w.entity.Exhausted d.effect amount
        · -- No modifier goes under the name of the effect, so taking them out does nothing.
          obtain ⟨taken, w₁, some, tidy, loses, reduced, returns, -⟩ := exhausts exhausted
          have none := (unclaimed exhausted).of_same loses.modifiers
          obtain ⟨w', ends, same⟩ := returns 0 w₁ (Engine.removeModifiersOf_unclaimed none)
          refine ⟨taken, w', ends, reduced _ ?_, fun zero => absurd zero some⟩
          rw [same, loses.effects, Table.get?_erase_self]
        · exact Engine.reduceStacks_leaves (Engine.serve rules levels) registered unhooked bare
            sound.tidy found stocked counted filled exhausted
      · intro exhausted
        obtain ⟨taken, w₁, some, tidy, loses, reduced, returns, fails⟩ := exhausts exhausted
        refine ⟨w₁, loses, fun removed w₂ removes => ?_, fails⟩
        obtain ⟨w', ends, same⟩ := returns removed w₂ removes
        have absent : w₁.entity.effects.get? d.effect = none := by
          rw [loses.effects, Table.get?_erase_self]
        have gone := Engine.removeModifiersOf_absent hookless levels _ tidy absent removed w₂ removes
        exact ⟨taken, w', ends, reduced _ (same ▸ gone), some⟩

def swarm : EffectDefinition Empty := { EffectDefinition.ofName "swarm" with stacking := .separate }

def swarmRules : Rulebook Empty :=
  ((do
    let rules ← Rulebook.builtin.registerStat "health" 100
    let rules ← rules.registerEffect bulwark
    rules.registerEffect swarm).toOption).getD .builtin

theorem swarmRules_hookless (hook : Hook) (script : Script Empty Unit) :
    ¬swarmRules.Starts hook script := by
  have values : swarmRules.effects.values = [bulwark, swarm] := rfl
  refine Rulebook.hookless_of_values values (List.forall_mem_cons.2 ⟨?_, ?_⟩) rfl hook script
  · exact ⟨rfl, rfl, rfl, rfl⟩
  · exact List.forall_mem_singleton.2 ⟨rfl, rfl, rfl, rfl⟩

/-- Of four and three stacks that nobody owns and two of a hive, five go: what stays are two of the
oldest, and those of the hive. -/
theorem swarm_reduced : ∃ w w' : World Empty,
    Reached swarmRules (fun _ => True) (fun _ c => c.Fresh) w ∧
    Engine.perform swarmRules 8 (.reduceStacks "swarm" 5) w = .ok 5 w' ∧
    w.entity.Reduced "swarm" 5 5 w'.entity ∧
    (w'.entity.held "swarm").map Stack.value = [2, 2] := by
  have made : ((Engine.performAll swarmRules 8
      [.addStack "swarm" (.ofValue 4) none, .addStack "swarm" (.ofValue 2) (some "hive"),
        .addStack "swarm" (.ofValue 3) none] (.ofEntity .new)).any fun w =>
        ((w.entity.held "swarm").any fun s => s.isSourced) &&
        match Engine.perform swarmRules 8 (.reduceStacks "swarm" 5) w with
        | .ok taken w' => taken = 5 && (w'.entity.held "swarm").map Stack.value = [2, 2]
        | .error _ _ => false) = true := by
    decide +kernel
  obtain ⟨w, run, checked⟩ := (Option.any_eq_true ..).1 made
  rw [Bool.and_eq_true, List.any_eq_true] at checked
  obtain ⟨⟨s, member, sourced⟩, reduces⟩ := checked
  have reached : Reached swarmRules (fun _ => True) (fun _ c => c.Fresh) w := by
    refine Engine.reached_of_performAll .new (fun c listed _ => ?_) run
    simp only [List.mem_cons, List.not_mem_nil, or_false] at listed
    rcases listed with rfl | rfl | rfl
    · exact ⟨rfl, by decide⟩
    · exact ⟨rfl, by decide⟩
    · exact ⟨rfl, by decide⟩
  have spared : w.entity.Exhausted "swarm" 5 → w.entity.Unclaimed "swarm" := by
    intro exhausted
    rw [exhausted.unowned s member] at sourced
    cases sourced
  obtain ⟨taken, w', returns, reduced, -⟩ :=
    (reduction_newest_first (d := swarm) reached rfl rfl swarmRules_hookless 8 5).1 spared
  change Engine.perform swarmRules 8 (.reduceStacks "swarm" 5) w = .ok taken w' at returns
  rw [returns, Bool.and_eq_true, decide_eq_true_eq, decide_eq_true_eq] at reduces
  obtain ⟨rfl, left⟩ := reduces
  exact ⟨w, w', reached, returns, reduced, left⟩

/-- Most of a swarm, which sleeps as long as health is not full. -/
def lurking : Stack Empty :=
  { (Stack.ofValue 4000000000 : Stack Empty) with
    duration := .ofTrigger (.threshold ⟨"health", .less, 100, true⟩) }

/-- The last stack of a guard goes, and with it the health that a game keeps under the name of the
guard. Then health is full and the rest of a swarm wakes up, which is more than a count can hold. -/
theorem swarm_overflows : ∃ w w' : World Empty,
    Reached swarmRules (fun _ => True) (fun _ c => c.Fresh) w ∧
    swarmRules.effects.get? "guard" = some bulwark ∧ bulwark.modifiers = [] ∧
    (∀ hook script, ¬swarmRules.Starts hook script) ∧
    Engine.perform swarmRules 8 (.reduceStacks "guard" 1) w = .error (.countOverflow "swarm") w' := by
  have made : ((Engine.performAll swarmRules 8
      [.addModifier (.ofParts "health" .add 50) (some (SourceTag.ofEffect "guard")),
        .addStack "guard" (.ofValue 1) none, .addStack "swarm" (.ofValue 4000000000) (some "hive"),
        .addStack "swarm" lurking (some "den")] (.ofEntity .new)).any fun w =>
        match Engine.perform swarmRules 8 (.reduceStacks "guard" 1) w with
        | .ok _ _ => false
        | .error f _ => f = .countOverflow "swarm") = true := by
    decide +kernel
  obtain ⟨w, run, fails⟩ := (Option.any_eq_true ..).1 made
  have reached : Reached swarmRules (fun _ => True) (fun _ c => c.Fresh) w := by
    refine Engine.reached_of_performAll .new (fun c listed _ => ?_) run
    simp only [List.mem_cons, List.not_mem_nil, or_false] at listed
    rcases listed with rfl | rfl | rfl | rfl
    · exact ⟨rfl, by decide⟩
    · exact ⟨rfl, by decide⟩
    · exact ⟨rfl, by decide⟩
    · exact ⟨rfl, by decide⟩
  split at fails
  · cases fails
  · rename_i f w' ends
    rw [decide_eq_true_eq] at fails
    subst fails
    exact ⟨w, w', reached, rfl, rfl, swarmRules_hookless, ends⟩

end StatusEffects
