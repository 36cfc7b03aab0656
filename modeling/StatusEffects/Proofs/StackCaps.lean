import Mathlib
import StatusEffects.Engine.Run
import StatusEffects.Proofs.Tidy

/-!
The stacks of live effects: the caps on those without a source, and the count that is kept of the
active ones.

All of this depends on an effect only through its outline, in which durations and custom conditions
are left out, so events that change condition trees alone do not matter here.
-/

set_option autoImplicit false

namespace StatusEffects

variable {π : Type}

/-! ### Caps -/

theorem pos_of_ne_zero {value : UInt32} (some : value ≠ 0) : 0 < value := by
  rw [UInt32.lt_iff_toNat_lt]
  apply Nat.pos_of_ne_zero
  intro zero
  exact some (UInt32.toNat_inj.1 zero)

theorem toNat_min (a b : UInt32) : (min a b).toNat = min a.toNat b.toNat := by
  change (if a ≤ b then a else b).toNat = _
  split
  · rename_i le
    exact (Nat.min_eq_left (UInt32.le_iff_toNat_le.1 le)).symm
  · rename_i greater
    rw [UInt32.le_iff_toNat_le] at greater
    omega

namespace EffectDefinition

variable (d : EffectDefinition π)

def limit : Nat := if d.maxStack = 0 then UInt32.size - 1 else d.maxStack.toNat

theorem limit_eq {d : EffectDefinition π} (cap : d.maxStack ≠ 0) : d.limit = d.maxStack.toNat :=
  if_neg cap

theorem limit_lt : d.limit < UInt32.size := by
  unfold limit
  split
  · decide
  · exact d.maxStack.toNat_lt

theorem limit_pos : 0 < d.limit := by
  unfold limit
  split
  · decide
  · rename_i cap
    exact UInt32.lt_iff_toNat_lt.1 (pos_of_ne_zero cap)

theorem toNat_clamp (value : UInt32) : (d.clamp value).toNat = min d.limit value.toNat := by
  unfold clamp limit
  split
  · exact (Nat.min_eq_right (Nat.le_pred_of_lt value.toNat_lt)).symm
  · rw [toNat_min, Nat.min_comm]

theorem toNat_room (count : UInt32) : (d.room count).toNat = d.limit - count.toNat := by
  unfold room limit
  split
  · have most : count ≤ 0xffffffff := UInt32.le_iff_toNat_le.2 (Nat.le_pred_of_lt count.toNat_lt)
    exact UInt32.toNat_sub_of_le _ _ most
  · split
    · rename_i most
      exact UInt32.toNat_sub_of_le _ _ most
    · rename_i full
      rw [UInt32.le_iff_toNat_le] at full
      exact (Nat.sub_eq_zero_of_le (Nat.le_of_not_le full)).symm

/-- The value of merged stacks is their sum, as far as the cap allows. -/
theorem toNat_mergedValue (existing incoming : UInt32) :
    (Engine.mergedValue d existing incoming).toNat =
      min d.limit (existing.toNat + incoming.toNat) := by
  have below := d.limit_lt
  unfold Engine.mergedValue
  rw [toNat_clamp]
  split
  · rename_i fits
    rw [UInt32.toNat_add, Nat.mod_eq_of_lt fits]
  · rename_i overflows
    change min d.limit (UInt32.size - 1) = _
    omega

end EffectDefinition

namespace Stack

def total (held : List (Stack π)) : Nat := (held.map fun s => s.value.toNat).sum

@[simp] theorem total_nil : total ([] : List (Stack π)) = 0 := rfl

@[simp] theorem total_cons (s : Stack π) (held : List (Stack π)) :
    total (s :: held) = s.value.toNat + total held := rfl

theorem total_append (first second : List (Stack π)) :
    total (first ++ second) = total first + total second := by
  unfold total
  rw [List.map_append, List.sum_append]

theorem total_le_of_sublist {fewer held : List (Stack π)} (sub : fewer.Sublist held) :
    total fewer ≤ total held := by
  induction sub with
  | slnil => exact Nat.le_refl _
  | cons s _ ih =>
      rw [total_cons]
      omega
  | cons_cons s _ ih =>
      rw [total_cons, total_cons]
      omega

theorem value_le_total {s : Stack π} {held : List (Stack π)} (member : s ∈ held) :
    s.value.toNat ≤ total held := by
  have single := total_le_of_sublist (List.singleton_sublist.2 member)
  rwa [total_cons, total_nil, Nat.add_zero] at single

def sourceless (held : List (Stack π)) : List (Stack π) := held.filter fun s => !s.isSourced

theorem mem_sourceless {s : Stack π} {held : List (Stack π)} :
    s ∈ sourceless held ↔ s ∈ held ∧ s.isSourced = false := by
  unfold sourceless
  rw [List.mem_filter, Bool.not_eq_true']

theorem sourceless_append (first second : List (Stack π)) :
    sourceless (first ++ second) = sourceless first ++ sourceless second :=
  List.filter_append ..

theorem sourceless_singleton {s : Stack π} (sourceless : s.isSourced = false) :
    Stack.sourceless [s] = [s] := by
  unfold Stack.sourceless
  rw [List.filter_cons_of_pos (by rw [sourceless]; rfl), List.filter_nil]

def outline (s : Stack π) : Stack π := { s with duration := .absent, attached := false }

end Stack

namespace LiveEffect

/-! ### Caps and counts -/

/-- The stacks without a source count, are none of them empty, and stay within the limit; only a way
of stacking that keeps stacks apart has several of them. -/
structure Stocked (d : EffectDefinition π) (live : LiveEffect π) : Prop where
  counts : ∀ s ∈ live.held, s.isSourced = false → s.active = true
  positive : ∀ s ∈ live.held, s.isSourced = false → 0 < s.value
  single : d.stacking ≠ .separate → (Stack.sourceless live.held).length ≤ 1
  limited : Stack.total (Stack.sourceless live.held) ≤ d.limit

/-- The count is the sum of the active stacks, and only what counts applies. Where immunity depends
on nothing but the effect, the effect applies exactly if it counts and the entity is not immune. -/
structure Tallied (rules : Rulebook π) (name : EffectName) (live : LiveEffect π) : Prop where
  count : live.count.toNat = live.activeSum
  counts : live.active = true → live.count ≠ 0
  active : ∀ immune : EffectName → Bool, (∀ e effect, rules.isImmune e effect = immune effect) →
    live.active = (0 < live.count && !immune name)

structure Finished (live : LiveEffect π) : Prop where
  held : live.held ≠ []
  drained : live.count = 0 → ∀ s ∈ live.held, s.isSourced = true

theorem activeSum_eq (live : LiveEffect π) :
    live.activeSum = Stack.total (live.held.filter Stack.active) := by
  unfold activeSum Stack.total
  induction live.held.filter Stack.active with
  | nil => rfl
  | cons s rest ih => rw [List.foldr_cons, List.map_cons, List.sum_cons, ih]

theorem activeSum_without_le (live : LiveEffect π) (ids : List Handle) :
    (live.without ids).activeSum ≤ live.activeSum := by
  rw [activeSum_eq, activeSum_eq]
  exact Stack.total_le_of_sublist (List.filter_sublist.filter _)

theorem Stocked.sourceless_active {d : EffectDefinition π} {live : LiveEffect π}
    (stocked : live.Stocked d) :
    Stack.sourceless (live.held.filter Stack.active) = Stack.sourceless live.held := by
  unfold Stack.sourceless
  rw [List.filter_filter]
  apply List.filter_congr
  intro s member
  cases sourced : s.isSourced with
  | true => rfl
  | false => simp [stocked.counts s member sourced]

theorem Stocked.sourceless_le_activeSum {d : EffectDefinition π} {live : LiveEffect π}
    (stocked : live.Stocked d) : Stack.total (Stack.sourceless live.held) ≤ live.activeSum := by
  rw [activeSum_eq, ← stocked.sourceless_active]
  exact Stack.total_le_of_sublist List.filter_sublist

/-! ### Stacks with a source -/

def Sourced (live : LiveEffect π) : Prop := ∃ s ∈ live.held, s.isSourced = true

/-- Stacks without a source never add up to more than the limit. -/
theorem Stocked.activeSum_le {d : EffectDefinition π} {live : LiveEffect π}
    (stocked : live.Stocked d) (unsourced : ¬live.Sourced) : live.activeSum ≤ d.limit := by
  have sourceless : Stack.sourceless live.held = live.held := by
    refine List.filter_eq_self.2 fun s member => ?_
    rw [Bool.not_eq_true', Bool.eq_false_iff]
    exact fun sourced => unsourced ⟨s, member, sourced⟩
  have limited := stocked.limited
  rw [sourceless] at limited
  rw [activeSum_eq]
  exact Nat.le_trans (Stack.total_le_of_sublist List.filter_sublist) limited

section

variable {live other : LiveEffect π}

theorem Sourced.of_held (sourced : other.Sourced)
    (held : ∀ s ∈ other.held, ∃ before ∈ live.held, before.isSourced = s.isSourced) :
    live.Sourced := by
  obtain ⟨s, member, source⟩ := sourced
  obtain ⟨before, present, same⟩ := held s member
  exact ⟨before, present, same.trans source⟩

theorem Sourced.of_without {ids : List Handle} (sourced : (live.without ids).Sourced) :
    live.Sourced :=
  sourced.of_held fun s member => ⟨s, (List.mem_filter.1 member).1, rfl⟩

theorem Sourced.of_modifyStack {id : Handle} {s s' : Stack π} (found : live.stack? id = some s)
    (same : s'.isSourced = s.isSourced) (sourced : (live.modifyStack id fun _ => s').Sourced) :
    live.Sourced := by
  refine sourced.of_held fun after member => ?_
  rcases mem_modifyFirst member with before | ⟨_, _, rfl⟩
  · exact ⟨after, before, rfl⟩
  · exact ⟨s, List.mem_of_find?_eq_some found, same.symm⟩

end

/-! ### Changing the stacks -/

section

variable {d : EffectDefinition π} {live : LiveEffect π}

theorem Stocked.capped (stocked : live.Stocked d) (cap : d.maxStack ≠ 0) :
    Stack.total (Stack.sourceless live.held) ≤ d.maxStack.toNat := by
  rw [← EffectDefinition.limit_eq cap]
  exact stocked.limited

theorem Stocked.sublist (stocked : live.Stocked d) {held : List (Stack π)}
    (sub : held.Sublist live.held) : Stocked d { live with held := held } where
  counts s member := stocked.counts s (sub.subset member)
  positive s member := stocked.positive s (sub.subset member)
  single apart := Nat.le_trans (sub.filter _).length_le (stocked.single apart)
  limited := Nat.le_trans (Stack.total_le_of_sublist (sub.filter _)) stocked.limited

theorem Stocked.without (stocked : live.Stocked d) (ids : List Handle) :
    (live.without ids).Stocked d :=
  stocked.sublist List.filter_sublist

theorem Stocked.pushSourced (stocked : live.Stocked d) {s : Stack π}
    (sourced : s.isSourced = true) : Stocked d { live with held := live.held ++ [s] } := by
  have same : Stack.sourceless (live.held ++ [s]) = Stack.sourceless live.held := by
    unfold Stack.sourceless
    rw [List.filter_append, List.filter_cons_of_neg (by simp [sourced]), List.filter_nil,
      List.append_nil]
  have earlier {other : Stack π} (member : other ∈ live.held ++ [s])
      (sourceless : other.isSourced = false) : other ∈ live.held := by
    rcases List.mem_append.1 member with before | last
    · exact before
    · rw [List.mem_singleton.1 last, sourced] at sourceless
      cases sourceless
  exact
    { counts := fun other member none => stocked.counts other (earlier member none) none
      positive := fun other member none => stocked.positive other (earlier member none) none
      single := by rw [same]; exact stocked.single
      limited := by rw [same]; exact stocked.limited }

theorem Stocked.pushSourceless (stocked : live.Stocked d) {s : Stack π}
    (sourceless : s.isSourced = false) (active : s.active = true) (positive : 0 < s.value)
    (single : d.stacking ≠ .separate → Stack.sourceless live.held = [])
    (limited : Stack.total (Stack.sourceless live.held) + s.value.toNat ≤ d.limit) :
    Stocked d { live with held := live.held ++ [s] } where
  counts other member none := by
    rcases List.mem_append.1 member with before | last
    · exact stocked.counts other before none
    · rw [List.mem_singleton.1 last]
      exact active
  positive other member none := by
    rcases List.mem_append.1 member with before | last
    · exact stocked.positive other before none
    · rw [List.mem_singleton.1 last]
      exact positive
  single apart := by
    rw [Stack.sourceless_append, single apart, Stack.sourceless_singleton sourceless]
    exact Nat.le_refl 1
  limited := by
    rw [Stack.sourceless_append, Stack.total_append, Stack.sourceless_singleton sourceless]
    exact limited

theorem sourceless_map {f : Stack π → Stack π} {held : List (Stack π)}
    (same : ∀ s ∈ held, (f s).isSourced = s.isSourced) :
    Stack.sourceless (held.map f) = (Stack.sourceless held).map f := by
  unfold Stack.sourceless
  rw [List.filter_map]
  congr 1
  apply List.filter_congr
  intro s member
  rw [Function.comp_apply, same s member]

theorem Stocked.map (stocked : live.Stocked d) {f : Stack π → Stack π}
    (same : ∀ s ∈ live.held, (f s).isSourced = s.isSourced)
    (counts : ∀ s ∈ live.held, s.isSourced = false → (f s).active = true)
    (positive : ∀ s ∈ live.held, s.isSourced = false → 0 < (f s).value)
    (limited : Stack.total ((Stack.sourceless live.held).map f) ≤ d.limit) :
    Stocked d { live with held := live.held.map f } where
  counts s member none := by
    obtain ⟨before, present, rfl⟩ := List.mem_map.1 member
    exact counts before present ((same before present).symm.trans none)
  positive s member none := by
    obtain ⟨before, present, rfl⟩ := List.mem_map.1 member
    exact positive before present ((same before present).symm.trans none)
  single apart := by
    rw [sourceless_map same, List.length_map]
    exact stocked.single apart
  limited := by
    rw [sourceless_map same]
    exact limited

/-- A stack may take another activity unless it has no source. -/
theorem Stocked.refresh (stocked : live.Stocked d) (distinct : (live.held.map Stack.id).Nodup)
    {id : Handle} {s : Stack π} (found : live.stack? id = some s)
    (owned : s.shouldBeActive = false → s.isSourced = true) :
    (live.modifyStack id fun _ => s.refresh.1).Stocked d := by
  obtain ⟨member, rfl⟩ := (find?_eq_some_iff_of_nodup distinct id s).1 found
  have only (other : Stack π) (present : other ∈ live.held) (equal : other.id = s.id) :
      other = s := by
    have again := (find?_eq_some_iff_of_nodup distinct s.id other).2 ⟨present, equal⟩
    exact Option.some.inj (again.symm.trans found)
  unfold modifyStack
  rw [modifyFirst_eq_map_of_nodup distinct]
  have values : ∀ other ∈ live.held,
      (if other.id = s.id then s.refresh.1 else other).isSourced = other.isSourced ∧
        (if other.id = s.id then s.refresh.1 else other).value = other.value := by
    intro other present
    split
    · rename_i equal
      rw [only other present equal]
      exact ⟨rfl, rfl⟩
    · exact ⟨rfl, rfl⟩
  refine stocked.map (fun other present => (values other present).1) ?_ ?_ ?_
  · intro other present none
    split
    · rename_i equal
      rw [only other present equal] at none
      cases should : s.shouldBeActive with
      | true => exact should
      | false =>
          rw [owned should] at none
          cases none
    · exact stocked.counts other present none
  · intro other present none
    rw [(values other present).2]
    exact stocked.positive other present none
  · refine Nat.le_trans (Nat.le_of_eq ?_) stocked.limited
    unfold Stack.total
    rw [List.map_map]
    congr 1
    apply List.map_congr_left
    intro other present
    rw [Function.comp_apply, (values other (Stack.mem_sourceless.1 present).1).2]

/-- Where stacks do not stay apart, the one without a source may take any value within the limit. -/
theorem Stocked.merge (stocked : live.Stocked d) (distinct : (live.held.map Stack.id).Nodup)
    (joins : d.stacking ≠ .separate) {id : Handle} {s merged : Stack π}
    (found : live.stack? id = some s) (none : s.isSourced = false)
    (same : merged.isSourced = false) (active : merged.active = true) (positive : 0 < merged.value)
    (limited : merged.value.toNat ≤ d.limit) :
    (live.modifyStack id fun _ => merged).Stocked d := by
  obtain ⟨member, rfl⟩ := (find?_eq_some_iff_of_nodup distinct id s).1 found
  have alone : Stack.sourceless live.held = [s] := by
    have present : s ∈ Stack.sourceless live.held := Stack.mem_sourceless.2 ⟨member, none⟩
    have single := stocked.single joins
    match held : Stack.sourceless live.held, present, single with
    | [other], present, _ => rw [List.mem_singleton.1 present]
    | _ :: _ :: _, _, single => simp at single
  have only (other : Stack π) (present : other ∈ live.held) :
      other.id = s.id ↔ other.isSourced = false := by
    constructor
    · intro equal
      have again := (find?_eq_some_iff_of_nodup distinct s.id other).2 ⟨present, equal⟩
      rw [Option.some.inj (again.symm.trans found)]
      exact none
    · intro sourceless
      have there := Stack.mem_sourceless.2 ⟨present, sourceless⟩
      rw [alone] at there
      rw [List.mem_singleton.1 there]
  unfold modifyStack
  rw [modifyFirst_eq_map_of_nodup distinct]
  refine stocked.map ?_ ?_ ?_ ?_
  · intro other present
    split
    · rename_i equal
      rw [same, (only other present).1 equal]
    · rfl
  · intro other present sourceless
    rw [if_pos ((only other present).2 sourceless)]
    exact active
  · intro other present sourceless
    rw [if_pos ((only other present).2 sourceless)]
    exact positive
  · rw [alone, List.map_singleton, if_pos rfl, Stack.total_cons, Stack.total_nil, Nat.add_zero]
    exact limited

end

end LiveEffect

/-! ### Drawing on stacks -/

def Stack.Drawn (after before : Stack π) : Prop :=
  after = { before with value := after.value } ∧ after.value ≤ before.value

private theorem min_le_left (a b : UInt32) : min a b ≤ a := by
  rw [UInt32.le_iff_toNat_le, toNat_min]
  exact Nat.min_le_left ..

private theorem sub_le {a b : UInt32} (le : b ≤ a) : a - b ≤ a := by
  rw [UInt32.le_iff_toNat_le, UInt32.toNat_sub_of_le _ _ le]
  exact Nat.sub_le _ _

theorem drawDown_drawn (amount : UInt32) (held : List (Stack π)) :
    List.Forall₂ Stack.Drawn (Engine.drawDown amount held).1 held := by
  induction held generalizing amount with
  | nil => exact .nil
  | cons s rest ih =>
      rw [Engine.drawDown]
      split
      · exact .cons ⟨rfl, UInt32.le_refl _⟩ (ih amount)
      · exact .cons ⟨rfl, sub_le (min_le_left _ _)⟩ (ih _)

theorem drawDown_reverse {amount left : UInt32} {held rest : List (Stack π)} {emptied : List Handle}
    (drawn : Engine.drawDown amount held.reverse = (rest, left, emptied)) :
    List.Forall₂ Stack.Drawn rest.reverse held := by
  have reversed := List.rel_reverse (drawDown_drawn amount held.reverse)
  rwa [drawn, List.reverse_reverse] at reversed

theorem drawDown_emptied (amount : UInt32) (held : List (Stack π))
    (positive : ∀ s ∈ held, s.isSourced = false → 0 < s.value) :
    ∀ s ∈ (Engine.drawDown amount held).1, s.isSourced = false → s.value = 0 →
      s.id ∈ (Engine.drawDown amount held).2.2 := by
  induction held generalizing amount with
  | nil => intro s member; cases member
  | cons first rest ih =>
      have later (amount : UInt32) := ih amount fun s member => positive s (.tail _ member)
      rw [Engine.drawDown]
      split
      · intro s member none zero
        rcases List.mem_cons.1 member with rfl | after
        · have value := positive s (List.mem_cons_self ..) none
          rw [zero] at value
          exact absurd value (UInt32.lt_irrefl 0)
        · exact later amount s after none zero
      · intro s member none zero
        rcases List.mem_cons.1 member with rfl | after
        · have equal : first.value = min first.value amount := by
            have left := congrArg UInt32.toNat zero
            rw [UInt32.toNat_sub_of_le _ _ (min_le_left _ _)] at left
            have le := UInt32.le_iff_toNat_le.1 (min_le_left first.value amount)
            apply UInt32.toNat_inj.1
            change _ - _ = 0 at left
            omega
          dsimp only
          rw [if_pos equal]
          exact List.mem_cons_self ..
        · have there := later (amount - min first.value amount) s after none zero
          dsimp only
          split
          · exact .tail _ there
          · exact there

/-- Nothing is taken off a stack with a source. -/
theorem drawDown_sourced (amount : UInt32) (held : List (Stack π)) {s : Stack π} (member : s ∈ held)
    (sourced : s.isSourced = true) : s ∈ (Engine.drawDown amount held).1 := by
  induction held generalizing amount with
  | nil => cases member
  | cons first rest ih =>
      rw [Engine.drawDown]
      split
      · rcases List.mem_cons.1 member with rfl | later
        · exact List.mem_cons_self ..
        · exact List.mem_cons_of_mem _ (ih amount later)
      · rename_i drawn
        rcases List.mem_cons.1 member with rfl | later
        · rw [sourced] at drawn
          exact absurd rfl drawn
        · exact List.mem_cons_of_mem _ (ih _ later)

/-- Only stacks without a source are emptied. -/
theorem drawDown_unowned (amount : UInt32) (held : List (Stack π)) {id : Handle}
    (emptied : id ∈ (Engine.drawDown amount held).2.2) :
    ∃ s ∈ held, s.id = id ∧ s.isSourced = false := by
  induction held generalizing amount with
  | nil => cases emptied
  | cons first rest ih =>
      rw [Engine.drawDown] at emptied
      split at emptied
      · obtain ⟨s, member, found⟩ := ih amount emptied
        exact ⟨s, List.mem_cons_of_mem _ member, found⟩
      · rename_i drawn
        have later (there : id ∈ (Engine.drawDown (amount - min first.value amount) rest).2.2) :
            ∃ s ∈ first :: rest, s.id = id ∧ s.isSourced = false := by
          obtain ⟨s, member, found⟩ := ih _ there
          exact ⟨s, List.mem_cons_of_mem _ member, found⟩
        dsimp only at emptied
        split at emptied
        · rcases List.mem_cons.1 emptied with rfl | there
          · refine ⟨first, List.mem_cons_self .., rfl, ?_⟩
            cases sourced : first.isSourced with
            | false => rfl
            | true =>
                rw [sourced] at drawn
                exact absurd rfl drawn
          · exact later there
        · exact later emptied

section

variable {after before : List (Stack π)}

theorem Stack.Drawn.ids (drawn : List.Forall₂ Stack.Drawn after before) :
    after.map Stack.id = before.map Stack.id := by
  induction drawn with
  | nil => rfl
  | cons first _ ih => rw [List.map_cons, List.map_cons, ih, first.1]

theorem Entity.Tidy.setDrawn {e : Entity π} (tidy : e.Tidy) {effect : EffectName}
    {live : LiveEffect π} (found : e.effects.get? effect = some live) {held : List (Stack π)}
    (drawn : List.Forall₂ Stack.Drawn held live.held) : (e.setStacks effect held).Tidy := by
  refine tidy.setStacks fun other there => ?_
  rw [found] at there
  cases there
  exact Stack.Drawn.ids drawn

theorem Stack.Drawn.mem (drawn : List.Forall₂ Stack.Drawn after before) {s : Stack π}
    (member : s ∈ after) : ∃ old ∈ before, Stack.Drawn s old := by
  induction drawn with
  | nil => cases member
  | cons first _ ih =>
      rcases List.mem_cons.1 member with rfl | later
      · exact ⟨_, List.mem_cons_self .., first⟩
      · obtain ⟨old, present, rest⟩ := ih later
        exact ⟨old, .tail _ present, rest⟩

theorem Stack.Drawn.sourceless (drawn : List.Forall₂ Stack.Drawn after before) :
    List.Forall₂ Stack.Drawn (Stack.sourceless after) (Stack.sourceless before) := by
  induction drawn with
  | nil => exact .nil
  | @cons s old _ _ first _ ih =>
      have same : s.isSourced = old.isSourced := by rw [first.1]; rfl
      unfold Stack.sourceless at ih ⊢
      rw [List.filter_cons, List.filter_cons, same]
      split
      · exact .cons first ih
      · exact ih

theorem Stack.Drawn.total_le (drawn : List.Forall₂ Stack.Drawn after before) :
    Stack.total after ≤ Stack.total before := by
  induction drawn with
  | nil => exact Nat.le_refl _
  | cons first _ ih =>
      have le := UInt32.le_iff_toNat_le.1 first.2
      rw [Stack.total_cons, Stack.total_cons]
      omega

theorem LiveEffect.Sourced.of_drawn {live : LiveEffect π} {held : List (Stack π)}
    (drawn : List.Forall₂ Stack.Drawn held live.held)
    (sourced : Sourced { live with held := held }) : live.Sourced := by
  refine sourced.of_held fun s member => ?_
  obtain ⟨before, present, same⟩ := Stack.Drawn.mem drawn member
  refine ⟨before, present, ?_⟩
  rw [same.1]
  rfl

/-- A live effect stays under its caps when something is taken off its stacks and the emptied ones
go. -/
theorem LiveEffect.Stocked.drawn {d : EffectDefinition π} {live : LiveEffect π}
    (stocked : live.Stocked d) {held : List (Stack π)} {emptied : List Handle}
    (drawn : List.Forall₂ Stack.Drawn held live.held)
    (gone : ∀ s ∈ held, s.isSourced = false → s.value = 0 → s.id ∈ emptied) :
    (LiveEffect.without { live with held := held } emptied).Stocked d := by
  have fewer : (Stack.sourceless (held.filter fun s => s.id ∉ emptied)).Sublist
      (Stack.sourceless held) := List.filter_sublist.filter _
  exact
    { counts := fun s member none => by
        obtain ⟨old, present, same⟩ := Stack.Drawn.mem drawn (List.mem_filter.1 member).1
        rw [same.1] at none ⊢
        exact stocked.counts old present none
      positive := fun s member none => by
        obtain ⟨present, kept⟩ := List.mem_filter.1 member
        by_contra zero
        have zero : s.value = 0 := by
          apply UInt32.toNat_inj.1
          rw [UInt32.lt_iff_toNat_lt] at zero
          change ¬0 < s.value.toNat at zero
          change s.value.toNat = 0
          omega
        rw [decide_eq_true_eq] at kept
        exact kept (gone s present none zero)
      single := fun apart => by
        have length := (Stack.Drawn.sourceless drawn).length_eq
        exact Nat.le_trans fewer.length_le (length ▸ stocked.single apart)
      limited := by
        have total := Stack.Drawn.total_le (Stack.Drawn.sourceless drawn)
        exact Nat.le_trans (Stack.total_le_of_sublist fewer)
          (Nat.le_trans total stocked.limited) }

end

/-! ### Outlines -/

namespace LiveEffect

def outline (live : LiveEffect π) : LiveEffect π :=
  { live with held := live.held.map Stack.outline, conditions := [] }

section

variable {live other : LiveEffect π}

theorem mem_of_outline (same : live.outline = other.outline) {s : Stack π}
    (member : s ∈ other.held) : ∃ before ∈ live.held, before.outline = s.outline := by
  have held : live.held.map Stack.outline = other.held.map Stack.outline :=
    congrArg LiveEffect.held same
  have there : s.outline ∈ live.held.map Stack.outline := by
    rw [held]
    exact List.mem_map_of_mem member
  exact List.mem_map.1 there

/-- Stacks picked by a test that durations do not matter to have the same values. -/
theorem values_of_outline (same : live.outline = other.outline) (test : Stack π → Bool)
    (plain : ∀ s : Stack π, test s.outline = test s) :
    (live.held.filter test).map Stack.value = (other.held.filter test).map Stack.value := by
  have held : live.held.map Stack.outline = other.held.map Stack.outline :=
    congrArg LiveEffect.held same
  have picked (list : List (Stack π)) : (list.filter test).map Stack.value =
      ((list.map Stack.outline).filter test).map Stack.value := by
    rw [List.filter_map, List.map_map]
    have tests : test ∘ Stack.outline = test := funext plain
    rw [tests]
    rfl
  rw [picked live.held, picked other.held, held]

theorem activeSum_of_outline (same : live.outline = other.outline) :
    live.activeSum = other.activeSum := by
  have values := values_of_outline same Stack.active fun _ => rfl
  have sums := congrArg (fun list => (list.map UInt32.toNat).sum) values
  simp only [List.map_map] at sums
  rw [activeSum_eq, activeSum_eq]
  exact sums

theorem Stocked.of_outline {d : EffectDefinition π} (same : live.outline = other.outline)
    (stocked : live.Stocked d) : other.Stocked d := by
  have values := values_of_outline same (fun s => !s.isSourced) fun _ => rfl
  have field {s before : Stack π} (equal : before.outline = s.outline) :
      before.isSourced = s.isSourced ∧ before.active = s.active ∧ before.value = s.value :=
    ⟨(congrArg Stack.isSourced equal :), (congrArg Stack.active equal :),
      (congrArg Stack.value equal :)⟩
  exact
    { counts := fun s member none => by
        obtain ⟨before, present, equal⟩ := mem_of_outline same member
        obtain ⟨source, active, _⟩ := field equal
        exact active.symm.trans (stocked.counts before present (source.trans none))
      positive := fun s member none => by
        obtain ⟨before, present, equal⟩ := mem_of_outline same member
        obtain ⟨source, _, value⟩ := field equal
        rw [← value]
        exact stocked.positive before present (source.trans none)
      single := fun apart => by
        have lengths := congrArg List.length values
        rw [List.length_map, List.length_map] at lengths
        exact lengths ▸ stocked.single apart
      limited := by
        have sums := congrArg (fun list => (list.map UInt32.toNat).sum) values
        simp only [List.map_map] at sums
        refine Nat.le_trans (Nat.le_of_eq ?_) stocked.limited
        exact sums.symm }

theorem Sourced.of_outline (same : live.outline = other.outline) (sourced : other.Sourced) :
    live.Sourced := by
  refine sourced.of_held fun s member => ?_
  obtain ⟨before, present, equal⟩ := mem_of_outline same member
  exact ⟨before, present, (congrArg Stack.isSourced equal :)⟩

theorem Tallied.of_outline {rules : Rulebook π} {name : EffectName}
    (same : live.outline = other.outline) (tallied : live.Tallied rules name) :
    other.Tallied rules name := by
  have count : live.count = other.count := (congrArg LiveEffect.count same :)
  have active : live.active = other.active := (congrArg LiveEffect.active same :)
  exact
    { count := by rw [← count, ← activeSum_of_outline same]; exact tallied.count
      counts := by rw [← count, ← active]; exact tallied.counts
      active := by rw [← count, ← active]; exact tallied.active }

theorem Finished.of_outline (same : live.outline = other.outline) (finished : live.Finished) :
    other.Finished := by
  have held : live.held.map Stack.outline = other.held.map Stack.outline :=
    congrArg LiveEffect.held same
  refine ⟨fun empty => ?_, fun zero s member => ?_⟩
  · rw [empty, List.map_nil, List.map_eq_nil_iff] at held
    exact finished.held held
  · obtain ⟨before, present, equal⟩ := mem_of_outline same member
    have count : live.count = other.count := (congrArg LiveEffect.count same :)
    have sourced := finished.drained (count.trans zero) before present
    exact (congrArg Stack.isSourced equal :).symm.trans sourced

end

end LiveEffect

end StatusEffects
