import StatusEffects.Proofs.Alternation
import StatusEffects.Proofs.Restocking

/-!
One counter for all ways of stacking.

As long as nobody owns the stacks of an effect and none of them ends, it does not matter whether they
are merged or kept apart: the active count is a counter under a cap. What keeps the effect in step
with the counter is that its stacks are none of them empty and come to the counter's value.
-/

set_option autoImplicit false

namespace StatusEffects

variable {π : Type}

/-! ### Drawing on stacks -/

theorem Stack.total_reverse (held : List (Stack π)) :
    Stack.total held.reverse = Stack.total held := by
  unfold Stack.total
  rw [List.map_reverse, List.sum_reverse]

theorem Stack.sourceless_reverse (held : List (Stack π)) :
    Stack.sourceless held.reverse = (Stack.sourceless held).reverse :=
  List.filter_reverse ..

theorem Stack.sourceless_cons {s : Stack π} (unowned : s.isSourced = false) (held : List (Stack π)) :
    Stack.sourceless (s :: held) = s :: Stack.sourceless held :=
  List.filter_cons_of_pos (by rw [unowned]; rfl)

theorem Stack.sourceless_cons_sourced {s : Stack π} (sourced : s.isSourced = true)
    (held : List (Stack π)) : Stack.sourceless (s :: held) = Stack.sourceless held :=
  List.filter_cons_of_neg (by rw [sourced]; exact Bool.false_ne_true)

theorem drawDown_cons_sourced (amount : UInt32) {s : Stack π} (sourced : s.isSourced = true)
    (rest : List (Stack π)) : Engine.drawDown amount (s :: rest) =
      (s :: (Engine.drawDown amount rest).1, (Engine.drawDown amount rest).2) := by
  rw [Engine.drawDown, sourced, Bool.true_or, if_pos rfl]

/-- What is taken off a stack that nobody owns; nothing if there is nothing left to take. -/
theorem drawDown_cons (amount : UInt32) {s : Stack π} (unowned : s.isSourced = false)
    (rest : List (Stack π)) :
    (Engine.drawDown amount (s :: rest)).1 = { s with value := s.value - min s.value amount } ::
        (Engine.drawDown (amount - min s.value amount) rest).1 ∧
      (Engine.drawDown amount (s :: rest)).2.1 =
        (Engine.drawDown (amount - min s.value amount) rest).2.1 := by
  rw [Engine.drawDown, unowned, Bool.false_or]
  split
  · rename_i zero
    have none : amount = 0 := of_decide_eq_true zero
    have least : min s.value amount = 0 := by
      rw [← UInt32.toNat_inj, toNat_min, none]
      exact Nat.min_zero _
    rw [least, UInt32.sub_zero, UInt32.sub_zero]
    exact ⟨rfl, rfl⟩
  · exact ⟨rfl, rfl⟩

theorem toNat_sub_min (value amount : UInt32) :
    (value - min value amount).toNat = value.toNat - amount.toNat ∧
      (amount - min value amount).toNat = amount.toNat - value.toNat := by
  have own : min value amount ≤ value := by
    rw [UInt32.le_iff_toNat_le, toNat_min]
    exact Nat.min_le_left ..
  have most : min value amount ≤ amount := by
    rw [UInt32.le_iff_toNat_le, toNat_min]
    exact Nat.min_le_right ..
  rw [UInt32.toNat_sub_of_le _ _ own, UInt32.toNat_sub_of_le _ _ most, toNat_min]
  constructor <;> omega

/-- What is taken off comes from the stacks that nobody owns, as much as there is. -/
theorem drawDown_total (amount : UInt32) (held : List (Stack π)) :
    Stack.total (Stack.sourceless (Engine.drawDown amount held).1) =
        Stack.total (Stack.sourceless held) - amount.toNat ∧
      (Engine.drawDown amount held).2.1.toNat =
        amount.toNat - Stack.total (Stack.sourceless held) := by
  induction held generalizing amount with
  | nil => exact ⟨(Nat.zero_sub _).symm, (Nat.sub_zero _).symm⟩
  | cons s rest ih =>
      cases sourced : s.isSourced with
      | true =>
          rw [drawDown_cons_sourced amount sourced, Stack.sourceless_cons_sourced sourced,
            Stack.sourceless_cons_sourced sourced]
          exact ih amount
      | false =>
          obtain ⟨held, left⟩ := drawDown_cons amount sourced rest
          obtain ⟨total, remaining⟩ := ih (amount - min s.value amount)
          obtain ⟨kept, owed⟩ := toNat_sub_min s.value amount
          have unowned : ({ s with value := s.value - min s.value amount } : Stack π).isSourced =
              false := sourced
          rw [held, left, Stack.sourceless_cons sourced, Stack.sourceless_cons unowned,
            Stack.total_cons, Stack.total_cons, total, remaining, kept, owed]
          constructor <;> omega

theorem drawDown_taken {amount left : UInt32} {before held : List (Stack π)} {emptied : List Handle}
    (drawn : Engine.drawDown amount before.reverse = (held, left, emptied)) :
    (amount - left).toNat = min amount.toNat (Stack.total (Stack.sourceless before)) := by
  obtain ⟨-, rest⟩ := drawDown_total amount before.reverse
  rw [drawn, Stack.sourceless_reverse, Stack.total_reverse] at rest
  change left.toNat = _ at rest
  have most : left ≤ amount := UInt32.le_iff_toNat_le.2 (rest ▸ Nat.sub_le ..)
  rw [UInt32.toNat_sub_of_le _ _ most]
  omega

/-- Only stacks with nothing left are given up. -/
theorem drawDown_spent (amount : UInt32) (held : List (Stack π)) {id : Handle}
    (emptied : id ∈ (Engine.drawDown amount held).2.2) :
    ∃ s ∈ (Engine.drawDown amount held).1, s.id = id ∧ s.value = 0 := by
  induction held generalizing amount with
  | nil => cases emptied
  | cons first rest ih =>
      rw [Engine.drawDown] at emptied ⊢
      split at emptied
      · rename_i kept
        obtain ⟨s, member, spent⟩ := ih amount emptied
        rw [if_pos kept]
        exact ⟨s, List.mem_cons_of_mem _ member, spent⟩
      · rename_i drawn
        rw [if_neg drawn]
        dsimp only at emptied ⊢
        split at emptied
        · rename_i whole
          rcases List.mem_cons.1 emptied with rfl | there
          · refine ⟨_, List.mem_cons_self .., rfl, ?_⟩
            change first.value - min first.value amount = 0
            rw [← whole]
            exact UInt32.sub_self _
          · obtain ⟨s, member, spent⟩ := ih _ there
            exact ⟨s, List.mem_cons_of_mem _ member, spent⟩
        · obtain ⟨s, member, spent⟩ := ih _ emptied
          exact ⟨s, List.mem_cons_of_mem _ member, spent⟩

/-- The stacks that are given up are those that nobody owns and of which nothing is left. -/
theorem drawDown_mem_emptied {amount left : UInt32} {before held : List (Stack π)}
    {emptied : List Handle} (distinct : (before.map Stack.id).Nodup)
    (positive : ∀ s ∈ before, s.isSourced = false → 0 < s.value)
    (drawn : Engine.drawDown amount before = (held, left, emptied)) {s : Stack π}
    (member : s ∈ held) : s.id ∈ emptied ↔ s.isSourced = false ∧ s.value = 0 := by
  have changed := drawDown_drawn amount before
  have spent : s.id ∈ (Engine.drawDown amount before).2.2 → _ := drawDown_spent amount before
  have unowned : s.id ∈ (Engine.drawDown amount before).2.2 → _ := drawDown_unowned amount before
  have gone := drawDown_emptied amount before positive s
  rw [drawn] at changed spent unowned gone
  constructor
  · intro listed
    -- A handle is that of one stack only, so the one that is given up is this one.
    obtain ⟨other, there, same, zero⟩ := spent listed
    obtain ⟨old, present, handle, none⟩ := unowned listed
    have apart : (held.map Stack.id).Nodup := by
      rw [Stack.Drawn.ids changed]
      exact distinct
    cases List.inj_on_of_nodup_map apart there member same
    obtain ⟨first, earlier, drew, -⟩ := Stack.Drawn.mem changed member
    have own : first.id = s.id := (congrArg Stack.id drew).symm
    cases List.inj_on_of_nodup_map distinct earlier present (own.trans handle.symm)
    refine ⟨?_, zero⟩
    rw [drew]
    exact none
  · rintro ⟨none, zero⟩
    exact gone member none zero

section

variable {d : EffectDefinition π} {live : LiveEffect π} {amount left : UInt32}
  {held : List (Stack π)} {emptied : List Handle}

theorem LiveEffect.Stocked.mem_emptied (stocked : live.Stocked d)
    (distinct : (live.held.map Stack.id).Nodup)
    (drawn : Engine.drawDown amount live.held.reverse = (held, left, emptied)) {s : Stack π}
    (member : s ∈ held) : s.id ∈ emptied ↔ s.isSourced = false ∧ s.value = 0 := by
  refine drawDown_mem_emptied ?_ (fun s present => ?_) drawn member
  · rw [List.map_reverse]
    exact List.nodup_reverse.2 distinct
  · exact stocked.positive s (List.mem_reverse.1 present)

/-- What is left of the stacks keeps to the definition. -/
theorem LiveEffect.Stocked.reduced (stocked : live.Stocked d)
    (distinct : (live.held.map Stack.id).Nodup)
    (drawn : Engine.drawDown amount live.held.reverse = (held, left, emptied)) :
    (LiveEffect.without { live with held := held.reverse } emptied).Stocked d :=
  stocked.drawn (drawDown_reverse drawn) fun _ member none zero =>
    (stocked.mem_emptied distinct drawn (List.mem_reverse.1 member)).2 ⟨none, zero⟩

end

/-! ### Stacks that come to a sum -/

/-- Nobody owns the stacks of a live effect, none of them ends, and they come to a certain sum. -/
structure LiveEffect.Sums (d : EffectDefinition π) (c : Nat) (live : LiveEffect π) : Prop where
  stocked : live.Stocked d
  unowned : ∀ s ∈ live.held, s.isSourced = false
  endless : ∀ s ∈ live.held, s.duration = .absent
  total : Stack.total live.held = c

/-- Stacks without a value may go. -/
theorem Stack.total_filter {held : List (Stack π)} {p : Stack π → Bool}
    (spent : ∀ s ∈ held, p s = false → s.value = 0) :
    Stack.total (held.filter p) = Stack.total held := by
  induction held with
  | nil => rfl
  | cons s rest ih =>
      have later := ih fun other member => spent other (List.mem_cons_of_mem _ member)
      rw [List.filter_cons]
      split
      · rw [total_cons, total_cons, later]
      · rename_i fails
        have none : s.value = 0 := spent s (List.mem_cons_self ..) (Bool.eq_false_iff.2 fails)
        rw [later, total_cons, none]
        exact (Nat.zero_add _).symm

theorem Stack.sourceless_eq {held : List (Stack π)} (unowned : ∀ s ∈ held, s.isSourced = false) :
    Stack.sourceless held = held := by
  refine List.filter_eq_self.2 fun s member => ?_
  rw [unowned s member]
  rfl

theorem Stack.shouldBeActive_of_endless {s : Stack π} (endless : s.duration = .absent) :
    s.shouldBeActive = true := by
  unfold Stack.shouldBeActive
  rw [endless]
  rfl

namespace LiveEffect.Sums

variable {d : EffectDefinition π} {c : Nat} {live : LiveEffect π}

theorem activeSum (sums : live.Sums d c) : live.activeSum = c := by
  have all : live.held.filter Stack.active = live.held :=
    List.filter_eq_self.2 fun s member => sums.stocked.counts s member (sums.unowned s member)
  rw [activeSum_eq, all, sums.total]

/-- Stacks that come to nothing are not there. -/
theorem empty (sums : live.Sums d 0) : live.held = [] := by
  refine List.eq_nil_iff_forall_not_mem.2 fun s member => ?_
  have positive := sums.stocked.positive s member (sums.unowned s member)
  have most := Stack.value_le_total member
  rw [sums.total] at most
  exact absurd (UInt32.lt_iff_toNat_lt.1 positive) (Nat.not_lt.2 most)

theorem filled (sums : live.Sums d c) (positive : 0 < c) : live.held ≠ [] := by
  intro none
  have total := sums.total
  rw [none, Stack.total_nil] at total
  omega

/-- Where stacks are merged there is one of them. -/
theorem single (sums : live.Sums d c) (positive : 0 < c) (merged : d.stacking ≠ .separate) :
    ∃ s, live.held = [s] := by
  have most := sums.stocked.single merged
  rw [Stack.sourceless_eq sums.unowned] at most
  cases held : live.held with
  | nil => exact absurd held (sums.filled positive)
  | cons s rest =>
      rw [held, List.length_cons] at most
      have none : rest = [] := List.eq_nil_of_length_eq_zero (by omega)
      exact ⟨s, by rw [none]⟩

theorem push (sums : live.Sums d c) {s : Stack π} (unowned : s.isSourced = false)
    (endless : s.duration = .absent) (active : s.active = true) (positive : 0 < s.value)
    (first : d.stacking ≠ .separate → live.held = []) (within : c + s.value.toNat ≤ d.limit) :
    LiveEffect.Sums d (c + s.value.toNat) { live with held := live.held ++ [s] } := by
  have same := Stack.sourceless_eq sums.unowned
  refine ⟨sums.stocked.pushSourceless unowned active positive (fun merged => ?_) ?_,
    fun other member => ?_, fun other member => ?_, ?_⟩
  · rw [same, first merged]
  · rwa [same, sums.total]
  · rcases List.mem_append.1 member with before | last
    · exact sums.unowned other before
    · rw [List.mem_singleton.1 last]
      exact unowned
  · rcases List.mem_append.1 member with before | last
    · exact sums.endless other before
    · rw [List.mem_singleton.1 last]
      exact endless
  · rw [Stack.total_append, sums.total, Stack.total_cons, Stack.total_nil, Nat.add_zero]

theorem of_blank {serial : Handle} :
    LiveEffect.Sums d 0 { LiveEffect.blank with serial := serial, effect := d.effect } where
  stocked := ⟨nofun, nofun, fun _ => Nat.zero_le _, Nat.zero_le _⟩
  unowned := nofun
  endless := nofun
  total := rfl

/-- Something is taken off the stacks, and those with nothing left go. -/
theorem drawn (sums : live.Sums d c) (distinct : (live.held.map Stack.id).Nodup)
    {amount left : UInt32} {held : List (Stack π)} {emptied : List Handle}
    (drawn : Engine.drawDown amount live.held.reverse = (held, left, emptied)) :
    LiveEffect.Sums d (c - amount.toNat)
      (LiveEffect.without { live with held := held.reverse } emptied) := by
  have changed := drawDown_reverse drawn
  have old {s : Stack π} (member : s ∈ held.reverse) : ∃ before ∈ live.held, s.Drawn before :=
    Stack.Drawn.mem changed member
  have total : Stack.total held = c - amount.toNat := by
    obtain ⟨total, -⟩ := drawDown_total amount live.held.reverse
    rwa [drawn, Stack.sourceless_eq fun s member => ?_, Stack.sourceless_eq fun s member => ?_,
      Stack.total_reverse, sums.total] at total
    · exact sums.unowned s (List.mem_reverse.1 member)
    · obtain ⟨before, there, same, -⟩ := old (List.mem_reverse.2 member)
      rw [same]
      exact sums.unowned before there
  refine ⟨sums.stocked.reduced distinct drawn, fun s member => ?_, fun s member => ?_, ?_⟩
  · obtain ⟨before, there, same, -⟩ := old (List.mem_filter.1 member).1
    rw [same]
    exact sums.unowned before there
  · obtain ⟨before, there, same, -⟩ := old (List.mem_filter.1 member).1
    rw [same]
    exact sums.endless before there
  · refine (Stack.total_filter fun s member gone => ?_).trans
      ((Stack.total_reverse held).trans total)
    refine ((sums.stocked.mem_emptied distinct drawn (List.mem_reverse.1 member)).1 ?_).2
    simpa using gone

/-- Where stacks are merged, the one that is there may take another value. -/
theorem merge (sums : live.Sums d c) {s : Stack π} (only : live.held = [s])
    (merged : d.stacking ≠ .separate) {value : UInt32} (positive : 0 < value)
    (within : value.toNat ≤ d.limit) : LiveEffect.Sums d value.toNat
      (live.modifyStack s.id fun _ => ({ s with value := value } : Stack π).refresh.1) := by
  have member : s ∈ live.held := by
    rw [only]
    exact List.mem_singleton_self s
  have distinct : (live.held.map Stack.id).Nodup := by
    rw [only]
    exact List.nodup_singleton _
  have found : live.stack? s.id = some s :=
    (find?_eq_some_iff_of_nodup distinct s.id s).2 ⟨member, rfl⟩
  have active := Stack.shouldBeActive_of_endless (s := { s with value := value })
    (sums.endless s member)
  have held : (live.modifyStack s.id fun _ => ({ s with value := value } : Stack π).refresh.1).held =
      [({ s with value := value } : Stack π).refresh.1] := by
    unfold LiveEffect.modifyStack
    dsimp only
    rw [only]
    simp [modifyFirst]
  refine ⟨sums.stocked.merge distinct merged found (sums.unowned s member) (sums.unowned s member)
    active positive within, ?_, ?_, ?_⟩
  · rw [held]
    exact List.forall_mem_singleton.2 (sums.unowned s member)
  · rw [held]
    exact List.forall_mem_singleton.2 (sums.endless s member)
  · rw [held]
    exact Nat.add_zero _

end LiveEffect.Sums

/-! ### Entities that count -/

/-- A game keeps no modifier under the name of an effect. -/
def Entity.Unclaimed (effect : EffectName) (e : Entity π) : Prop :=
  ∀ stat, ∀ m ∈ e.modifiers.get stat, m.source ≠ some (SourceTag.ofEffect effect)

/-- An effect has the value of a counter: it is live if the counter is positive, and its stacks and
its count are the counter then. -/
structure Entity.Counts (d : EffectDefinition π) (c : Nat) (e : Entity π) : Prop where
  tidy : e.Tidy
  unclaimed : e.Unclaimed d.effect
  within : c ≤ d.limit
  gone : e.effects.get? d.effect = none → c = 0
  live : ∀ live, e.effects.get? d.effect = some live →
    0 < c ∧ live.Sums d c ∧ live.count.toNat = c

/-- The stacks of a live effect come to a sum that may not have been settled yet. -/
structure Entity.Pending (d : EffectDefinition π) (c : Nat) (e : Entity π) : Prop where
  tidy : e.Tidy
  unclaimed : e.Unclaimed d.effect
  within : c ≤ d.limit
  there : ∃ live, e.effects.get? d.effect = some live ∧ live.Sums d c

namespace Entity

variable {d : EffectDefinition π} {c : Nat} {e e' : Entity π} {live : LiveEffect π}

theorem Unclaimed.of_same {effect : EffectName} (unclaimed : e.Unclaimed effect)
    (same : e'.modifiers = e.modifiers) : e'.Unclaimed effect := by
  unfold Unclaimed
  rw [same]
  exact unclaimed

theorem Counts.activeCount (counts : e.Counts d c) : (e.activeCount d.effect).toNat = c := by
  unfold Entity.activeCount
  cases found : e.effects.get? d.effect with
  | none => exact (counts.gone found).symm
  | some live => exact (counts.live live found).2.2

theorem Counts.contains (counts : e.Counts d c) :
    e.effects.contains d.effect = true ↔ 0 < c := by
  unfold Table.contains
  cases found : e.effects.get? d.effect with
  | none =>
      have zero := counts.gone found
      rw [Option.isSome_none]
      exact ⟨nofun, fun positive => by omega⟩
  | some live => exact ⟨fun _ => (counts.live live found).1, fun _ => rfl⟩

theorem Counts.dropped (tidy : e.Tidy) (unclaimed : e.Unclaimed d.effect) (live : LiveEffect π) :
    (e.dropEffect d.effect live).Counts d 0 := by
  have absent : (e.dropEffect d.effect live).effects.get? d.effect = none := by
    rw [dropEffect_effects, Table.get?_erase_self]
  refine ⟨tidy.dropEffect _ _, unclaimed.of_same (dropEffect_stats e _ _).2, Nat.zero_le _,
    fun _ => rfl, fun other found => ?_⟩
  rw [absent] at found
  cases found

theorem Counts.of_live (tidy : e.Tidy) (unclaimed : e.Unclaimed d.effect)
    (found : e.effects.get? d.effect = some live) (sums : live.Sums d c)
    (count : live.count.toNat = c) (positive : 0 < c) (within : c ≤ d.limit) : e.Counts d c := by
  refine ⟨tidy, unclaimed, within, fun absent => ?_, fun other lives => ?_⟩
  · rw [found] at absent
    cases absent
  · rw [found] at lives
    cases lives
    exact ⟨positive, sums, count⟩

theorem detachStacks_stats (e : Entity π) (effect : EffectName) (ids : List Handle) :
    (e.detachStacks effect ids).2.values = e.values ∧
      (e.detachStacks effect ids).2.modifiers = e.modifiers :=
  detachStacks_induct (motive := fun e' => e'.values = e.values ∧ e'.modifiers = e.modifiers) effect
    (fun _ _ _ detached before => by
      obtain ⟨live, s, -, -, rfl⟩ := detachStack?_eq_some detached
      exact before) ids ⟨rfl, rfl⟩

theorem Tidy.get?_drawn (tidy : e.Tidy) {effect : EffectName}
    (found : e.effects.get? effect = some live) {amount left : UInt32} {held : List (Stack π)}
    {emptied : List Handle}
    (drawn : Engine.drawDown amount live.held.reverse = (held, left, emptied)) :
    ((e.setStacks effect held.reverse).detachStacks effect emptied).2.effects.get? effect =
      some (LiveEffect.without { live with held := held.reverse } emptied) := by
  have set : (e.setStacks effect held.reverse).effects.get? effect =
      some { live with held := held.reverse } :=
    get?_modifyEffect_self found _
  rw [(tidy.setDrawn found (drawDown_reverse drawn)).effects_detachStacks, Table.get?_modify,
    if_pos rfl, set, Option.map_some]

/-- Something is taken off the stacks, which is still to be settled. -/
theorem Counts.drawn (counts : e.Counts d c) (found : e.effects.get? d.effect = some live)
    {amount left : UInt32} {held : List (Stack π)} {emptied : List Handle}
    (drawn : Engine.drawDown amount live.held.reverse = (held, left, emptied)) :
    ((e.setStacks d.effect held.reverse).detachStacks d.effect emptied).2.Pending d
      (c - amount.toNat) := by
  obtain ⟨-, sums, -⟩ := counts.live live found
  have tidy : (e.setStacks d.effect held.reverse).Tidy :=
    counts.tidy.setDrawn found (drawDown_reverse drawn)
  exact ⟨tidy.detachStacks _ _, counts.unclaimed.of_same (detachStacks_stats ..).2,
    Nat.le_trans (Nat.sub_le ..) counts.within, _, counts.tidy.get?_drawn found drawn,
    sums.drawn (counts.tidy.effects _ live found).distinct drawn⟩

end Entity

/-! ### Settling -/

/-- Nothing depends on the effect but its count: it has no duration, no modifiers and no hooks. -/
structure EffectDefinition.Bare (d : EffectDefinition π) : Prop extends d.Silent where
  duration : d.duration = .absent
  modifiers : d.modifiers = []

namespace Engine

open Act

variable {nested : Nested π} {rules : Rulebook π} {d : EffectDefinition π} {c : Nat} {e : Entity π}
  {live : LiveEffect π}

theorem removeModifiersOf_unclaimed {effect : EffectName} {w : World π}
    (unclaimed : w.entity.Unclaimed effect) :
    removeModifiersOf nested (SourceTag.ofEffect effect) w = .ok 0 w := by
  have none : w.entity.modifiers.ofSource (some (SourceTag.ofEffect effect)) = [] := by
    refine List.eq_nil_iff_forall_not_mem.2 fun m listed => ?_
    obtain ⟨⟨stat, member⟩, sourced⟩ := ModifierLists.mem_ofSource.1 listed
    exact unclaimed stat m member sourced
  rw [removeModifiersOf, entity_bind, none]
  rfl

variable (nested rules) in
/-- An effect without stacks goes, and then the modifiers under its name. -/
theorem removeIfEmpty_run {effect : EffectName} {w : World π}
    (found : w.entity.effects.get? effect = some live) (empty : live.held = []) :
    ∃ w₁, w₁.entity = w.entity.dropEffect effect live ∧ removeIfEmpty nested rules effect w =
      (do
        let _ ← removeModifiersOf nested (SourceTag.ofEffect effect)
        if live.active then announceFlip nested rules effect false) w₁ := by
  refine ⟨{ w with
    entity := w.entity.dropEffect effect live
    trace := .effectRemoved effect (w.entity.dropEffect effect live) :: w.trace }, rfl, ?_⟩
  rw [removeIfEmpty, entity_bind, found, Option.any_some, empty, if_pos List.isEmpty_nil, removeLive,
    entity_bind, found]
  rfl

section

variable (registered : rules.effects.get? d.effect = some d) (unhooked : d.Unhooked)

include registered unhooked

/-- An effect without stacks goes, and nothing else if no modifier goes under its name. -/
theorem removeIfEmpty_brings (unclaimed : e.Unclaimed d.effect)
    (found : e.effects.get? d.effect = some live) (empty : live.held = []) :
    (removeIfEmpty nested rules d.effect).Brings e () (e.dropEffect d.effect live) := by
  intro w same
  subst same
  obtain ⟨w₁, left, run⟩ := removeIfEmpty_run nested rules found empty
  have modifiers := (Entity.dropEffect_stats w.entity d.effect live).2
  have nothing : w₁.entity.Unclaimed d.effect := left ▸ unclaimed.of_same modifiers
  have rest : Act.Brings (if live.active then announceFlip nested rules d.effect false else pure ())
      (w.entity.dropEffect d.effect live) () (w.entity.dropEffect d.effect live) := by
    split
    · exact announceFlip_brings registered unhooked false _
    · exact .pure () _
  rw [run, bind_run (removeModifiersOf_unclaimed nothing)]
  exact rest w₁ left

variable (nested) in
/-- An effect without modifiers is counted, and what remains is to remove what is left of it. -/
theorem settle_run [CustomTrigger π] (bare : d.modifiers = [])
    (found : e.effects.get? d.effect = some live) (bounded : live.activeSum < UInt32.size) :
    ∃ v : Verdict, v.count = live.activeSum.toUInt32 ∧ ∀ w : World π, w.entity = e →
      ∃ w₁, w₁.entity = e.storeCount d.effect v.count v.active ∧
        settle nested rules d.effect w = settleEnd nested rules d.effect v w₁ := by
  generalize counted : live.activeSum.toUInt32 = count
  generalize applies : (0 < count && !rules.isImmune e d.effect) = active
  let v : Verdict := ⟨live.serial, count, active, live.count != count, live.active != active⟩
  let stored := e.storeCount d.effect count active
  have there : stored.effects.get? d.effect =
      some { live with count := count, active := active } :=
    Entity.get?_storeCount found ..
  have holds : v.holds stored d.effect = true := (holds_iff there).2 ⟨rfl, rfl, rfl⟩
  have renews : (settleModifiers nested rules d.effect v).Brings stored true stored := by
    unfold settleModifiers
    rw [registered]
    dsimp only
    rw [if_neg]
    · exact .pure true stored
    · unfold Verdict.renews
      rw [bare]
      exact Bool.false_ne_true
  refine ⟨v, rfl, fun w same => ?_⟩
  obtain ⟨w₁, recounts, same₁⟩ := recount_brings found bounded counted applies w same
  obtain ⟨w₂, flips, same₂⟩ : ∃ w₂, settleFlip nested rules d.effect v w₁ = .ok true w₂ ∧
      w₂.entity = stored := settleFlip_brings registered unhooked holds w₁ same₁
  obtain ⟨w₃, renewed, same₃⟩ := renews w₂ same₂
  refine ⟨w₃, same₃, ?_⟩
  unfold settle
  rw [bind_run recounts]
  dsimp only
  rw [bind_run flips, if_pos rfl, bind_run renewed, if_pos rfl]

/-- What is left without stacks goes, and the rest stays. -/
theorem settleEnd_counts {v : Verdict} (tidy : e.Tidy) (unclaimed : e.Unclaimed d.effect)
    (found : e.effects.get? d.effect = some live) (sums : live.Sums d c) (within : c ≤ d.limit)
    (count : live.count.toNat = c) (same : v.count = live.count) :
    ∃ e', (settleEnd nested rules d.effect v).Brings e () e' ∧ e'.Counts d c := by
  unfold settleEnd
  rw [same]
  split
  · rename_i zero
    have none : c = 0 := count.symm.trans (congrArg UInt32.toNat zero)
    subst none
    have drains : (drain d.effect).Brings e () e :=
      drain_brings found (sums.empty ▸ List.forall_mem_nil _)
    exact ⟨e.dropEffect d.effect live,
      drains.bind (removeIfEmpty_brings registered unhooked unclaimed found sums.empty),
      .dropped tidy unclaimed live⟩
  · rename_i some
    have positive : 0 < c := count ▸ UInt32.lt_iff_toNat_lt.1 (pos_of_ne_zero (same ▸ some))
    exact ⟨e, .pure () e, .of_live tidy unclaimed found sums count positive within⟩

variable (nested) in
theorem settle_counts [CustomTrigger π] (bare : d.modifiers = []) (pending : e.Pending d c) :
    ∃ e', (settle nested rules d.effect).Brings e () e' ∧ e'.Counts d c := by
  obtain ⟨tidy, unclaimed, within, live, found, sums⟩ := pending
  have bounded : live.activeSum < UInt32.size := by
    rw [sums.activeSum]
    exact Nat.lt_of_le_of_lt within d.limit_lt
  obtain ⟨v, counted, runs⟩ := settle_run nested registered unhooked bare found bounded
  let after : LiveEffect π := { live with count := v.count, active := v.active }
  have there : (e.storeCount d.effect v.count v.active).effects.get? d.effect = some after :=
    Entity.get?_storeCount found ..
  have sums' : after.Sums d c :=
    ⟨{ sums.stocked with }, sums.unowned, sums.endless, sums.total⟩
  have count : after.count.toNat = c := by
    change v.count.toNat = c
    rw [counted, ← sums.activeSum]
    exact UInt32.toNat_ofNat_of_lt' bounded
  obtain ⟨e', ends, counts⟩ := settleEnd_counts (v := v) registered unhooked
    (tidy.storeCount d.effect _ v.active) (unclaimed.of_same rfl) there sums' within count rfl
  refine ⟨e', fun w same => ?_, counts⟩
  obtain ⟨w₁, same₁, run⟩ := runs w same
  rw [run]
  exact ends w₁ same₁

end

end Engine

/-! ### Adding -/

structure Stack.Joins (e : Entity π) (s : Stack π) : Prop where
  new : s.id = e.nextHandle
  unowned : s.isSourced = false
  endless : s.duration = .absent
  active : s.active = true

/-- A stack that a game adds for nobody and without an end. An attached one stays as it is, so it has
to be like that already. -/
structure Stack.Plain (s : Stack π) : Prop where
  endless : s.duration = .absent
  unowned : s.attached = true → s.isSourced = false
  active : s.attached = true → s.active = true

theorem Stack.plain_ofValue (value : UInt32) : (Stack.ofValue value : Stack π).Plain :=
  ⟨rfl, nofun, nofun⟩

theorem Stack.Plain.joins [CustomTrigger π] {e : Entity π} {s : Stack π} (plain : s.Plain)
    {d : EffectDefinition π} (endless : d.duration = .absent) (r : Readings) :
    ∃ s' : Stack π, ({ s with
        duration := Engine.stackDuration d s.duration
        id := e.nextHandle }).attach r none = s' ∧ s'.Joins e ∧ s'.value = s.value := by
  have own : Engine.stackDuration d s.duration = .absent := by
    rw [plain.endless]
    change d.duration.pristine = .absent
    rw [endless]
    rfl
  rw [own]
  unfold Stack.attach
  split
  · rename_i attached
    exact ⟨_, rfl, ⟨rfl, plain.unowned attached, rfl, plain.active attached⟩, rfl⟩
  · exact ⟨_, rfl, ⟨rfl, rfl, rfl, rfl⟩, rfl⟩

namespace Engine

open Act

variable [CustomTrigger π] {nested : Nested π} {rules : Rulebook π} {d : EffectDefinition π} {c : Nat}
  {e : Entity π} {live : LiveEffect π} {s : Stack π}

omit [CustomTrigger π] in
theorem updateCondition_absent {α : Type} {owner : Owner} (absent : e.condition owner = .absent)
    (change : Readings → Condition π → Condition π × α) :
    (updateCondition rules owner change).Brings e none e := by
  unfold updateCondition
  refine .bind (.entity e) ?_
  rw [absent]
  exact .pure none e

/-- What placing a stack comes to: the sum grows by the value of the stack as far as the cap allows,
or there is no room or no value and nothing happens. -/
def Reckons (d : EffectDefinition π) (c : Nat) (s : Stack π) (e : Entity π) (outcome : Outcome)
    (e' : Entity π) : Prop :=
  (outcome.isApplied = true ∧ e'.Pending d (min d.limit (c + s.value.toNat))) ∨
    (outcome = .discarded ∧ min d.limit (c + s.value.toNat) = c ∧
      e' = e.takeHandle.2.releaseStack s.detach)

section

variable (tidy : e.Tidy) (unclaimed : e.Unclaimed d.effect) (within : c ≤ d.limit)
  (found : e.effects.get? d.effect = some live) (sums : live.Sums d c) (joins : s.Joins e)

include tidy unclaimed within found sums joins

theorem pushCapped_counts {value : UInt32} (fits : value.toNat = min s.value.toNat (d.limit - c))
    (first : d.stacking ≠ .separate → live.held = []) :
    ∃ outcome e', (pushCapped d.effect s value).Brings e.takeHandle.2 outcome e' ∧
      Reckons d c s e outcome e' := by
  unfold pushCapped
  split
  · rename_i zero
    have none : min s.value.toNat (d.limit - c) = 0 := fits.symm.trans (congrArg UInt32.toNat zero)
    refine ⟨.discarded, _, .bind (.modifyEntity _ _) (.pure _ _), .inr ⟨rfl, ?_, rfl⟩⟩
    omega
  · rename_i filled
    let pushed : Stack π := { s with value := value }
    have lives : e.takeHandle.2.effects.get? d.effect = some live := found
    have positive : 0 < value := pos_of_ne_zero filled
    have grown : c + pushed.value.toNat = min d.limit (c + s.value.toNat) := by
      change c + value.toNat = _
      omega
    have after : (e.takeHandle.2.pushStack d.effect pushed).effects.get? d.effect =
        some { live with held := live.held ++ [pushed] } := by
      rw [Entity.get?_pushStack, if_pos rfl, lives, Option.map_some]
    have spare : e.takeHandle.2.Spare pushed.id := joins.new ▸ tidy.spare
    refine ⟨_, _, pushStack_brings lives pushed, .inl ⟨rfl, tidy.takeHandle.pushStack spare,
      unclaimed.of_same rfl, Nat.min_le_left .., _, after, ?_⟩⟩
    rw [← grown]
    exact sums.push joins.unowned joins.endless joins.active positive first
      (grown ▸ Nat.min_le_left ..)

variable (nested rules) in
omit within joins in
theorem mergeStack_counts (positive : 0 < c) {target : Stack π} (only : live.held = [target])
    (merged : d.stacking ≠ .separate) :
    ∃ e', (mergeStack nested rules d target.id s).Brings e.takeHandle.2 (.merged target.id) e' ∧
      Reckons d c s e (.merged target.id) e' := by
  have member : target ∈ live.held := by
    rw [only]
    exact List.mem_singleton_self _
  have stack : live.stack? target.id = some target := by
    unfold LiveEffect.stack?
    rw [only]
    simp
  have there (e' : Entity π) (same : e'.effects = e.effects) :
      e'.stack? d.effect target.id = some target := by
    unfold Entity.stack?
    rw [same, found, Option.bind_some, stack]
  have untimed : (mergeDuration rules d target.id s).Brings e.takeHandle.2 () e.takeHandle.2 := by
    unfold mergeDuration
    refine .bind (updateCondition_absent ?_ _) (.pure () _)
    unfold Entity.condition
    dsimp only
    rw [there e.takeHandle.2 rfl]
    exact sums.endless target member
  let released := e.takeHandle.2.releaseStack s.detach
  let value := mergedValue d target.value s.value
  let next : Stack π := { target with value := value }
  have own : target.value.toNat = c := by
    have total := sums.total
    rwa [only, Stack.total_cons, Stack.total_nil, Nat.add_zero] at total
  have grown : value.toNat = min d.limit (c + s.value.toNat) := by
    rw [← own]
    exact d.toNat_mergedValue target.value s.value
  have filled : 0 < value := by
    have below := d.limit_pos
    rw [UInt32.lt_iff_toNat_lt]
    change 0 < value.toNat
    omega
  have still : next.refresh.2 = false := by
    change (next.shouldBeActive != target.active) = false
    rw [Stack.shouldBeActive_of_endless (s := next) (sums.endless target member),
      sums.stocked.counts target member (sums.unowned target member)]
    rfl
  have after : (released.updateStack d.effect target.id next.refresh.1).effects.get? d.effect =
      some (live.modifyStack target.id fun _ => next.refresh.1) :=
    Entity.get?_modifyEffect_self found _
  refine ⟨released.updateStack d.effect target.id next.refresh.1, ?_, .inl ⟨rfl, ?_⟩⟩
  · unfold mergeStack
    refine untimed.bind (.bind (.modifyEntity _ _) (.bind (.entity _) ?_))
    rw [there (e.takeHandle.2.releaseStack s.detach) rfl]
    refine .bind (.modifyEntity _ released) ?_
    rw [if_neg (by rw [still]; exact Bool.false_ne_true)]
    exact .pure _ _
  · refine ⟨(tidy.takeHandle.releaseStack _).updateStack d.effect rfl, unclaimed.of_same rfl,
      Nat.min_le_left .., _, after, ?_⟩
    rw [← grown]
    exact sums.merge only merged filled (grown ▸ Nat.min_le_left ..)

variable (nested rules) in
theorem placeStack_counts (count : live.count.toNat = c) :
    ∃ outcome e', (placeStack nested rules d s).Brings e.takeHandle.2 outcome e' ∧
      Reckons d c s e outcome e' := by
  unfold placeStack
  rw [joins.active, joins.unowned, Bool.not_true, Bool.false_and, if_neg Bool.false_ne_true,
    if_neg Bool.false_ne_true]
  split
  · rename_i separate
    have counted : e.takeHandle.2.activeCount d.effect = live.count := by
      change ((e.effects.get? d.effect).map LiveEffect.count).getD 0 = _
      rw [found, Option.map_some, Option.getD_some]
    have fits : (min s.value (d.room live.count)).toNat = min s.value.toNat (d.limit - c) := by
      rw [toNat_min, d.toNat_room, count]
    obtain ⟨outcome, e', pushes, reckons⟩ := pushCapped_counts tidy unclaimed within found sums joins
      fits fun merged => absurd separate merged
    refine ⟨outcome, e', .bind (.entity _) ?_, reckons⟩
    rwa [counted]
  · rename_i merged
    have first : (e.takeHandle.2.effects.get? d.effect).bind LiveEffect.firstSourceless? =
        live.firstSourceless? := by
      change (e.effects.get? d.effect).bind _ = _
      rw [found, Option.bind_some]
    obtain rfl | positive := Nat.eq_zero_or_pos c
    · have none : live.firstSourceless? = none := by
        unfold LiveEffect.firstSourceless?
        rw [sums.empty]
        rfl
      have fits : (d.clamp s.value).toNat = min s.value.toNat (d.limit - 0) := by
        rw [d.toNat_clamp, Nat.min_comm, Nat.sub_zero]
      obtain ⟨outcome, e', pushes, reckons⟩ := pushCapped_counts tidy unclaimed within found sums
        joins fits fun _ => sums.empty
      refine ⟨outcome, e', .bind (.entity _) ?_, reckons⟩
      rw [first, none]
      exact pushes
    · obtain ⟨target, only⟩ := sums.single positive merged
      have oldest : live.firstSourceless? = some target.id := by
        unfold LiveEffect.firstSourceless?
        rw [only, List.find?_cons_of_pos (by
          rw [sums.unowned target (only ▸ List.mem_singleton_self _)]
          rfl), Option.map_some]
      obtain ⟨e', merges, reckons⟩ := mergeStack_counts nested rules tidy
        unclaimed found sums (s := s) positive only merged
      refine ⟨_, e', .bind (.entity _) ?_, reckons⟩
      rw [first, oldest]
      exact merges

end

variable (rules) in
theorem ensureLive_counts (silent : d.Silent) (counts : e.Counts d c) :
    ∃ created e' live, (ensureLive rules d).Brings e created e' ∧ e'.Tidy ∧
      e'.Unclaimed d.effect ∧ e'.effects.get? d.effect = some live ∧ live.Sums d c ∧
      live.count.toNat = c ∧ (created = false → 0 < c) ∧ (created = true → c = 0) := by
  cases found : e.effects.get? d.effect with
  | some live =>
      obtain ⟨positive, sums, count⟩ := counts.live live found
      exact ⟨false, e, live, ensureLive_live found, counts.tidy, counts.unclaimed, found, sums,
        count, fun _ => positive, nofun⟩
  | none =>
      have zero := counts.gone found
      subst zero
      exact ⟨true, e.withBlank d.effect, _, ensureLive_new silent found,
        counts.tidy.addNewEffect d.effect [],
        counts.unclaimed.of_same (e.withBlank_stats d.effect).2,
        Entity.get?_withBlank counts.tidy d.effect, .of_blank, rfl, nofun, fun _ => rfl⟩

variable (nested) in
/-- Adding a stack adds its value to the counter, as far as the cap allows. -/
theorem addStack_counts (registered : rules.effects.get? d.effect = some d) (bare : d.Bare)
    (counts : e.Counts d c) (plain : s.Plain) :
    ∃ outcome e', (addStack nested rules d.effect s none).Brings e (.ok outcome) e' ∧
      e'.Counts d (min d.limit (c + s.value.toNat)) := by
  obtain ⟨created, e₁, live, ensures, tidy, unclaimed, found, sums, count, kept, new⟩ :=
    ensureLive_counts rules bare.toSilent counts
  obtain ⟨s', attached, joins, value⟩ :=
    plain.joins (e := e₁) bare.duration (rules.readings e₁.takeHandle.2)
  obtain ⟨outcome, e₂, places, reckons⟩ := placeStack_counts nested rules tidy
    unclaimed counts.within found sums joins count
  rw [Reckons, value] at reckons
  unfold addStack
  rw [registered]
  rcases reckons with ⟨applied, pending⟩ | ⟨rfl, same, rfl⟩
  · obtain ⟨e', settles, counts'⟩ :=
      settle_counts nested registered bare.unhooked bare.modifiers pending
    exact ⟨outcome, e', .map Except.ok
      (addStackOf_brings ensures attached bare.toSilent applied places settles), counts'⟩
  · have tidy₂ : (e₁.takeHandle.2.releaseStack s'.detach).Tidy := tidy.takeHandle.releaseStack _
    have unclaimed₂ : (e₁.takeHandle.2.releaseStack s'.detach).Unclaimed d.effect :=
      unclaimed.of_same rfl
    rw [same]
    cases created with
    | true =>
        have zero := new rfl
        subst zero
        have lives : (e₁.takeHandle.2.releaseStack s'.detach).effects.get? d.effect = some live :=
          found
        have removes : (removeIfEmpty nested rules d.effect).Brings
            (e₁.takeHandle.2.releaseStack s'.detach) () _ :=
          removeIfEmpty_brings registered bare.unhooked unclaimed₂ lives sums.empty
        exact ⟨.discarded, _, .map Except.ok
          (addStackOf_discarded ensures attached places removes), .dropped tidy₂ unclaimed₂ live⟩
    | false => exact ⟨.discarded, _, .map Except.ok
        (addStackOf_discarded ensures attached places rfl),
        .of_live tidy₂ unclaimed₂ found sums count (kept rfl) counts.within⟩

/-! ### Reducing -/

theorem reduceStacks_run_absent {effect : EffectName} {w : World π}
    (absent : w.entity.effects.get? effect = none) (amount : UInt32) :
    reduceStacks nested rules effect amount w = .ok 0 w := by
  rw [reduceStacks, entity_bind, absent]
  rfl

section

variable {effect : EffectName} {amount left : UInt32} {held : List (Stack π)} {emptied : List Handle}
  {w : World π} (found : w.entity.effects.get? effect = some live)
  (drawn : drawDown amount live.held.reverse = (held, left, emptied))

include found drawn

theorem reduceStacks_run_none (none : amount - left = 0) :
    reduceStacks nested rules effect amount w = .ok 0 w := by
  rw [reduceStacks, entity_bind, found]
  dsimp only
  rw [drawn]
  dsimp only
  rw [if_pos none]
  rfl

variable (nested rules) in
/-- Once the stacks are drawn upon, the effect is settled. -/
theorem reduceStacks_run (some : amount - left ≠ 0) :
    ∃ w₁, w₁.entity = ((w.entity.setStacks effect held.reverse).detachStacks effect emptied).2 ∧
      reduceStacks nested rules effect amount w =
        (do
          settle nested rules effect
          pure (amount - left)) w₁ := by
  let e := ((w.entity.setStacks effect held.reverse).detachStacks effect emptied).2
  refine ⟨{ w with entity := e, trace := .stacksChanged effect e :: w.trace }, rfl, ?_⟩
  rw [reduceStacks, entity_bind, found]
  dsimp only
  rw [drawn]
  dsimp only
  rw [if_neg some]
  rfl

end

variable (nested) in
/-- Reducing takes off the counter what is there of the amount. -/
theorem reduceStacks_counts (registered : rules.effects.get? d.effect = some d) (bare : d.Bare)
    (counts : e.Counts d c) (amount : UInt32) :
    ∃ taken e', (reduceStacks nested rules d.effect amount).Brings e taken e' ∧
      taken.toNat = min amount.toNat c ∧ e'.Counts d (c - min amount.toNat c) := by
  cases found : e.effects.get? d.effect with
  | none =>
      have zero := counts.gone found
      subst zero
      rw [Nat.zero_sub, Nat.min_zero]
      exact ⟨0, e, fun w same => ⟨w, reduceStacks_run_absent (same ▸ found) amount, same⟩, rfl, counts⟩
  | some live =>
      obtain ⟨-, sums, -⟩ := counts.live live found
      rcases drawn : drawDown amount live.held.reverse with ⟨held, left, emptied⟩
      have taken : (amount - left).toNat = min amount.toNat c := by
        have told := drawDown_taken drawn
        rwa [Stack.sourceless_eq sums.unowned, sums.total] at told
      by_cases none : amount - left = 0
      · have zero : min amount.toNat c = 0 := taken.symm.trans (congrArg UInt32.toNat none)
        refine ⟨0, e, fun w same => ⟨w, ?_, same⟩, zero.symm, ?_⟩
        · exact reduceStacks_run_none (same ▸ found) drawn none
        · rw [zero]
          exact counts
      · have pending : ((e.setStacks d.effect held.reverse).detachStacks d.effect emptied).2.Pending d
            (c - min amount.toNat c) := by
          have less : c - min amount.toNat c = c - amount.toNat := by omega
          rw [less]
          exact counts.drawn found drawn
        obtain ⟨e', settles, counts'⟩ :=
          settle_counts nested registered bare.unhooked bare.modifiers pending
        refine ⟨amount - left, e', fun w same => ?_, taken, counts'⟩
        obtain ⟨w₁, same₁, run⟩ := reduceStacks_run nested rules (same ▸ found) drawn none
        obtain ⟨w₂, ends, same₂⟩ := settles w₁ (same ▸ same₁)
        refine ⟨w₂, ?_, same₂⟩
        rw [run, bind_run ends]
        rfl

end Engine

/-! ### Orders -/

inductive StackOrder (π : Type) where
  | add (s : Stack π)
  | reduce (amount : UInt32)

namespace StackOrder

def call (effect : EffectName) : StackOrder π → Call π
  | .add s => .addStack effect s none
  | .reduce amount => .reduceStacks effect amount

def next (cap c : Nat) : StackOrder π → Nat
  | .add s => min cap (c + s.value.toNat)
  | .reduce amount => c - min amount.toNat c

/-- The replies of a counter: whatever comes of a stack, adding it goes well, and reducing tells how
much was taken. -/
def Replies (effect : EffectName) (c : Nat) : (order : StackOrder π) → (order.call effect).Reply → Prop
  | .add _, reply => ∃ outcome : Outcome, reply = .ok outcome
  | .reduce amount, taken => UInt32.toNat taken = min amount.toNat c

def Plain : StackOrder π → Prop
  | .add s => s.Plain
  | .reduce _ => True

end StackOrder

/-- An effect looks like a counter: its active count is the counter, and it is live exactly if the
counter is positive. -/
def Entity.Tells (effect : EffectName) (c : Nat) (e : Entity π) : Prop :=
  (e.activeCount effect).toNat = c ∧ (e.effects.contains effect = true ↔ 0 < c)

theorem Entity.Counts.tells {d : EffectDefinition π} {c : Nat} {e : Entity π} (counts : e.Counts d c) :
    e.Tells d.effect c :=
  ⟨counts.activeCount, counts.contains⟩

variable [CustomTrigger π] {rules : Rulebook π} {d : EffectDefinition π}

/-- Under orders one after the other, an effect looks like a counter and replies like one, before
and after each of them and however deep hooks may nest. -/
def Tallies (rules : Rulebook π) (d : EffectDefinition π) :
    (orders : List (StackOrder π)) → (c : Nat) → World π → Prop
  | [], c, w => w.entity.Tells d.effect c
  | order :: rest, c, w => w.entity.Tells d.effect c ∧ ∀ levels, ∃ reply w',
      Engine.perform rules levels (order.call d.effect) w = .ok reply w' ∧
        order.Replies d.effect c reply ∧ Tallies rules d rest (order.next d.limit c) w'

theorem StackOrder.counts (registered : rules.effects.get? d.effect = some d) (bare : d.Bare)
    {order : StackOrder π} (plain : order.Plain) {c : Nat} {w : World π}
    (counts : w.entity.Counts d c) (levels : Nat) : ∃ reply w',
      Engine.perform rules levels (order.call d.effect) w = .ok reply w' ∧
        order.Replies d.effect c reply ∧ w'.entity.Counts d (order.next d.limit c) := by
  cases order with
  | add s =>
      obtain ⟨outcome, e', adds, counts'⟩ :=
        Engine.addStack_counts (Engine.serve rules levels) registered bare counts plain
      obtain ⟨w', returns, same⟩ := adds w rfl
      exact ⟨.ok outcome, w', returns, ⟨outcome, rfl⟩, same ▸ counts'⟩
  | reduce amount =>
      obtain ⟨taken, e', reduces, told, counts'⟩ :=
        Engine.reduceStacks_counts (Engine.serve rules levels) registered bare counts amount
      obtain ⟨w', returns, same⟩ := reduces w rfl
      exact ⟨taken, w', returns, told, same ▸ counts'⟩

/-- However its stacks combine, whatever the entity is immune to, and whatever else is live, an
effect with nothing but a cap is a counter under that cap, as long as no modifier goes under its
name. -/
theorem stacks_tally {snapshots : Snapshot → Prop} {calls : Entity π → Call π → Prop} {w : World π}
    (reached : Reached rules snapshots calls w)
    (registered : rules.effects.get? d.effect = some d) (bare : d.Bare)
    (absent : w.entity.effects.get? d.effect = none) (unclaimed : w.entity.Unclaimed d.effect)
    (orders : List (StackOrder π)) (plain : ∀ order ∈ orders, order.Plain) :
    Tallies rules d orders 0 w := by
  have start : w.entity.Counts d 0 :=
    ⟨reached.attended.1.tidy, unclaimed, Nat.zero_le _, fun _ => rfl, fun live found => by
      rw [absent] at found
      cases found⟩
  clear absent unclaimed reached
  generalize 0 = c at start ⊢
  induction orders generalizing c w with
  | nil => exact start.tells
  | cons order rest ih =>
      refine ⟨start.tells, fun levels => ?_⟩
      obtain ⟨reply, w', returns, replies, counts⟩ :=
        StackOrder.counts registered bare (plain order (List.mem_cons_self ..)) start levels
      exact ⟨reply, w', returns, replies,
        ih (fun other member => plain other (List.mem_cons_of_mem _ member)) _ counts⟩

def bulwark : EffectDefinition Empty :=
  { EffectDefinition.ofName "guard" with stacking := .separate, maxStack := 5 }

/-- Rules with health, that effect, and another one that adds a stack to it when health is full. -/
def bulwarkRules : Rulebook Empty :=
  ((do
    let rules ← Rulebook.builtin.registerStat "health" 100
    let rules ← rules.registerEffect bulwark
    rules.registerEffect vigil).toOption).getD .builtin

theorem bulwark_bare : bulwark.Bare := ⟨⟨rfl, rfl, rfl, rfl⟩, rfl, rfl⟩

/-- Stacks come up to the cap and go again. -/
theorem bulwark_tallies : bulwarkRules.effects.get? "guard" = some bulwark ∧
    Tallies bulwarkRules bulwark [.add (.ofValue 4), .add (.ofValue 4), .reduce 3, .reduce 9,
      .add (.ofValue 0)] 0 (.ofEntity .new) := by
  have registered : bulwarkRules.effects.get? bulwark.effect = some bulwark := rfl
  have unclaimed : Entity.Unclaimed bulwark.effect (Entity.new : Entity Empty) := nofun
  have reached : Reached bulwarkRules (fun _ => True) (fun _ _ => True) (.ofEntity .new) := .new
  refine ⟨registered, stacks_tally reached registered bulwark_bare rfl unclaimed _ ?_⟩
  simp [StackOrder.Plain, Stack.plain_ofValue]

def stale : Stack Empty := { Stack.ofValue 1 with attached := true }

/-- The counter is missed in two ways. A modifier of a game goes under the name of the effect, and
health is full but for it: when the effect goes, the modifier goes with it, and the other effect adds
a stack again. And a stack that is attached already is not attached again, so one that does not count
is dropped. -/
theorem bulwark_not_tallied : (∃ w : World Empty,
    Reached bulwarkRules (fun _ => True) (fun _ _ => True) w ∧
    bulwarkRules.effects.get? "guard" = some bulwark ∧ bulwark.Bare ∧
    w.entity.effects.get? "guard" = none ∧
    (∀ order ∈ [StackOrder.add (.ofValue 1), .reduce 1], StackOrder.Plain (π := Empty) order) ∧
    ¬Tallies bulwarkRules bulwark [.add (.ofValue 1), .reduce 1] 0 w) ∧
    stale.duration = .absent ∧ stale.isSourced = false ∧
    ¬Tallies bulwarkRules bulwark [.add stale] 0 (.ofEntity .new) := by
  have made : ((Engine.performAll bulwarkRules 8
      [.addStack "vigil" (.ofValue 1) none,
        .addModifier (.ofParts "health" .add 50) (some (SourceTag.ofEffect "guard"))]
      (.ofEntity .new)).any fun w => !w.entity.effects.contains "guard" &&
        (Engine.performAll bulwarkRules 8 [.addStack "guard" (.ofValue 1) none] w).any fun w₁ =>
          (Engine.performAll bulwarkRules 8 [.reduceStacks "guard" 1] w₁).any fun w₂ =>
            w₂.entity.activeCount "guard" = 1) = true := by
    decide +kernel
  obtain ⟨w, run, checked⟩ := (Option.any_eq_true ..).1 made
  rw [Bool.and_eq_true, Bool.not_eq_true'] at checked
  obtain ⟨gone, later⟩ := checked
  obtain ⟨w₁, run₁, checked₁⟩ := (Option.any_eq_true ..).1 later
  obtain ⟨w₂, run₂, checked₂⟩ := (Option.any_eq_true ..).1 checked₁
  obtain ⟨_, returns₁⟩ := Engine.perform_of_performAll run₁
  obtain ⟨_, returns₂⟩ := Engine.perform_of_performAll run₂
  have reached : Reached bulwarkRules (fun _ => True) (fun _ _ => True) w :=
    Engine.reached_of_performAll .new (fun _ _ _ => trivial) run
  have absent : w.entity.effects.get? "guard" = none :=
    Option.isNone_iff_eq_none.1 (Option.isSome_eq_false_iff.1 gone)
  refine ⟨⟨w, reached, rfl, bulwark_bare, absent, ?_, fun tallies => ?_⟩, rfl, rfl,
    fun tallies => ?_⟩
  · simp [StackOrder.Plain, Stack.plain_ofValue]
  · obtain ⟨-, after⟩ := tallies
    obtain ⟨_, _, first, -, -, after⟩ := after 8
    have same := returns₁.symm.trans first
    cases same
    obtain ⟨_, _, second, -, count, -⟩ := after 8
    have same := returns₂.symm.trans second
    cases same
    have one : (w₂.entity.activeCount "guard").toNat = 1 :=
      congrArg UInt32.toNat (of_decide_eq_true checked₂)
    exact absurd (one.symm.trans count) (by decide)
  · have dropped : ((Engine.performAll bulwarkRules 8 [.addStack "guard" stale none]
        (.ofEntity .new)).any fun w => w.entity.activeCount "guard" = 0) = true := by
      decide +kernel
    obtain ⟨w, run, checked⟩ := (Option.any_eq_true ..).1 dropped
    obtain ⟨_, returns⟩ := Engine.perform_of_performAll run
    obtain ⟨-, after⟩ := tallies
    obtain ⟨_, _, only, -, count, -⟩ := after 8
    have same := returns.symm.trans only
    cases same
    have zero : (w.entity.activeCount "guard").toNat = 0 :=
      congrArg UInt32.toNat (of_decide_eq_true checked)
    exact absurd (zero.symm.trans count) (by decide)

end StatusEffects
