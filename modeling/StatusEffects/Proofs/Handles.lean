import StatusEffects.Proofs.Subscriptions
import StatusEffects.Proofs.VisibleStates

/-!
Handles are not given twice.

One counter numbers modifiers, stacks and live effects alike. Every move gives at most one handle,
the next one, to one entry, so what a handle once stood for is all that it can ever stand for. When
the entry is gone the handle stands for nothing: calls and events that name it find nothing and
change nothing. Handles are natural numbers, so the counter never comes to an end.
-/

set_option autoImplicit false

namespace StatusEffects

variable {π : Type}

/-- What a handle can stand for: a modifier of a stat, a stack of an effect, or a live effect. -/
inductive Holder where
  | modifier (stat : StatName)
  | stack (effect : EffectName)
  | effect (name : EffectName)
deriving DecidableEq, Repr

namespace Entity

def Holds (e : Entity π) (id : Handle) : Holder → Prop
  | .modifier stat => ∃ m ∈ e.modifiers.get stat, m.id = id
  | .stack effect => ∃ live, e.effects.get? effect = some live ∧ ∃ s ∈ live.held, s.id = id
  | .effect name => ∃ live, e.effects.get? name = some live ∧ live.serial = id

def handles (e : Entity π) : List Handle :=
  e.modifiers.toList.map Modifier.id ++
    e.effects.values.flatMap fun live => live.serial :: live.held.map Stack.id

/-- Every handle was given and stands for one entry only. -/
structure Numbered [CustomTrigger π] (e : Entity π) : Prop where
  attended : e.Attended
  first : 1 ≤ e.nextHandle
  positive : ∀ id holder, e.Holds id holder → 1 ≤ id
  unique : ∀ id holder other, e.Holds id holder → e.Holds id other → holder = other

variable {e e' e₁ e₂ e₃ : Entity π} {id : Handle} {holder : Holder}

theorem mem_handles : id ∈ e.handles ↔ ∃ holder, e.Holds id holder := by
  unfold handles
  rw [List.mem_append, List.mem_map, List.mem_flatMap]
  constructor
  · rintro (⟨m, listed, rfl⟩ | ⟨live, listed, here⟩)
    · obtain ⟨stat, there⟩ := ModifierLists.mem_toList.1 listed
      exact ⟨.modifier stat, m, there, rfl⟩
    · obtain ⟨name, found⟩ := Table.mem_values.1 listed
      rcases List.mem_cons.1 here with rfl | stack
      · exact ⟨.effect name, live, found, rfl⟩
      · obtain ⟨s, member, rfl⟩ := List.mem_map.1 stack
        exact ⟨.stack name, live, found, s, member, rfl⟩
  · rintro ⟨holder, holds⟩
    cases holder with
    | modifier stat =>
        obtain ⟨m, there, rfl⟩ := holds
        exact .inl ⟨m, ModifierLists.mem_toList.2 ⟨stat, there⟩, rfl⟩
    | stack effect =>
        obtain ⟨live, found, s, member, rfl⟩ := holds
        refine .inr ⟨live, Table.mem_values.2 ⟨effect, found⟩, ?_⟩
        exact List.mem_cons_of_mem _ (List.mem_map_of_mem member)
    | effect name =>
        obtain ⟨live, found, rfl⟩ := holds
        exact .inr ⟨live, Table.mem_values.2 ⟨name, found⟩, List.mem_cons_self ..⟩

theorem Tidy.below (tidy : e.Tidy) (holds : e.Holds id holder) : id < e.nextHandle := by
  cases holder with
  | modifier stat =>
      obtain ⟨m, there, rfl⟩ := holds
      exact tidy.given stat m there
  | stack effect =>
      obtain ⟨live, found, s, member, rfl⟩ := holds
      exact (tidy.effects effect live found).given s member
  | effect name =>
      obtain ⟨live, found, rfl⟩ := holds
      exact (tidy.effects name live found).numbered

/-- What is filed under different keys has nothing in common. -/
theorem nodup_flatMap_values {β γ : Type} {t : Table β} {f : β → List γ}
    (each : ∀ key v, t.get? key = some v → (f v).Nodup)
    (apart : ∀ key v key' v', t.get? key = some v → t.get? key' = some v' →
      ∀ x ∈ f v, x ∈ f v' → key = key') : (t.values.flatMap f).Nodup := by
  refine List.nodup_flatMap.2 ⟨fun v listed => ?_, ?_⟩
  · obtain ⟨key, found⟩ := Table.mem_values.1 listed
    exact each key v found
  · refine List.pairwise_map.2 (t.sorted.imp_of_mem fun {a b} first second less => ?_)
    intro x here there
    have same := apart a.1 a.2 b.1 b.2 (Table.mem_entries_iff.1 first)
      (Table.mem_entries_iff.1 second) x here there
    rw [same] at less
    exact absurd less (String.lt_irrefl _)

/-- No two entries of an entity have the same handle. -/
theorem Numbered.nodup [CustomTrigger π] (numbered : e.Numbered) : e.handles.Nodup := by
  have tidy := numbered.attended.tidy
  refine List.nodup_append.2 ⟨?_, ?_, ?_⟩
  · have parts : e.modifiers.toList.map Modifier.id =
        e.modifiers.lists.values.flatMap fun list => list.map Modifier.id := by
      rw [ModifierLists.toList, List.map_flatten, List.flatMap_def]
    have filed {stat : StatName} {list : List (Modifier π)}
        (found : e.modifiers.lists.get? stat = some list) : e.modifiers.get stat = list := by
      rw [ModifierLists.get, found, Option.getD_some]
    rw [parts]
    refine nodup_flatMap_values (fun stat list found => ?_)
      fun stat list stat' list' found found' id here there => ?_
    · rw [← filed found]
      exact tidy.distinct stat
    · rw [← filed found, List.mem_map] at here
      rw [← filed found', List.mem_map] at there
      exact Holder.modifier.inj (numbered.unique id _ _ here there)
  · have stands {name : EffectName} {live : LiveEffect π} {id : Handle}
        (found : e.effects.get? name = some live)
        (here : id ∈ live.serial :: live.held.map Stack.id) :
        e.Holds id (.effect name) ∨ e.Holds id (.stack name) := by
      rcases List.mem_cons.1 here with rfl | stack
      · exact .inl ⟨live, found, rfl⟩
      · exact .inr ⟨live, found, List.mem_map.1 stack⟩
    refine nodup_flatMap_values (fun name live found => ?_)
      fun name live name' live' found found' id here there => ?_
    · refine List.nodup_cons.2 ⟨fun stack => ?_, (tidy.effects name live found).distinct⟩
      cases numbered.unique _ (.effect name) (.stack name) ⟨live, found, rfl⟩
        ⟨live, found, List.mem_map.1 stack⟩
    · rcases stands found here with serial | stack
      · rcases stands found' there with serial' | stack'
        · exact Holder.effect.inj (numbered.unique id _ _ serial serial')
        · cases numbered.unique id _ _ serial stack'
      · rcases stands found' there with serial' | stack'
        · cases numbered.unique id _ _ stack serial'
        · exact Holder.stack.inj (numbered.unique id _ _ stack stack')
  · intro id here other there same
    subst same
    obtain ⟨m, listed, rfl⟩ := List.mem_map.1 here
    obtain ⟨stat, present⟩ := ModifierLists.mem_toList.1 listed
    obtain ⟨live, filed, within⟩ := List.mem_flatMap.1 there
    obtain ⟨name, found⟩ := Table.mem_values.1 filed
    rcases List.mem_cons.1 within with serial | stack
    · cases numbered.unique m.id (.modifier stat) (.effect name) ⟨m, present, rfl⟩
        ⟨live, found, serial.symm⟩
    · cases numbered.unique m.id (.modifier stat) (.stack name) ⟨m, present, rfl⟩
        ⟨live, found, List.mem_map.1 stack⟩

/-! ### Moves -/

/-- From one entity to another at most one handle is given, the next one, to a new entry. -/
structure Issues (new : Option Holder) (e e' : Entity π) : Prop where
  handles : e.nextHandle ≤ e'.nextHandle
  counted : new.isSome = true → e.nextHandle < e'.nextHandle
  holds : ∀ id holder, e'.Holds id holder →
    e.Holds id holder ∨ (id = e.nextHandle ∧ new = some holder)

/-- No entry has a handle that it did not have before. -/
theorem Issues.none (handles : e.nextHandle ≤ e'.nextHandle)
    (modifiers : ∀ stat, ∀ m ∈ e'.modifiers.get stat, ∃ old ∈ e.modifiers.get stat, old.id = m.id)
    (effects : ∀ name live, e'.effects.get? name = some live → ∃ old,
      e.effects.get? name = some old ∧ old.serial = live.serial ∧
        ∀ s ∈ live.held, ∃ stack ∈ old.held, stack.id = s.id) : Issues .none e e' := by
  refine ⟨handles, nofun, fun id holder holds => .inl ?_⟩
  cases holder with
  | modifier stat =>
      obtain ⟨m, there, rfl⟩ := holds
      exact modifiers stat m there
  | stack effect =>
      obtain ⟨live, found, s, member, rfl⟩ := holds
      obtain ⟨old, there, -, kept⟩ := effects effect live found
      exact ⟨old, there, kept s member⟩
  | effect name =>
      obtain ⟨live, found, rfl⟩ := holds
      obtain ⟨old, there, same, -⟩ := effects name live found
      exact ⟨old, there, same⟩

/-- Live effects that are as they were. -/
theorem effects_kept (same : e'.effects = e.effects) (name : EffectName) (live : LiveEffect π)
    (found : e'.effects.get? name = some live) : ∃ old, e.effects.get? name = some old ∧
      old.serial = live.serial ∧ ∀ s ∈ live.held, ∃ stack ∈ old.held, stack.id = s.id := by
  rw [same] at found
  exact ⟨live, found, rfl, fun s member => ⟨s, member, rfl⟩⟩

theorem modifiers_kept (same : e'.modifiers = e.modifiers) (stat : StatName) (m : Modifier π)
    (there : m ∈ e'.modifiers.get stat) : ∃ old ∈ e.modifiers.get stat, old.id = m.id := by
  rw [same] at there
  exact ⟨m, there, rfl⟩

/-- A live effect changes without a new stack. -/
theorem effects_modified {effect : EffectName} {change : LiveEffect π → LiveEffect π}
    (serial : ∀ live, (change live).serial = live.serial)
    (held : ∀ live, e.effects.get? effect = some live →
      ∀ s ∈ (change live).held, ∃ stack ∈ live.held, stack.id = s.id)
    (name : EffectName) (live : LiveEffect π)
    (found : (e.modifyEffect effect change).effects.get? name = some live) : ∃ old,
      e.effects.get? name = some old ∧ old.serial = live.serial ∧
        ∀ s ∈ live.held, ∃ stack ∈ old.held, stack.id = s.id := by
  rw [get?_modifyEffect] at found
  split at found
  · rename_i here
    subst here
    obtain ⟨old, there, rfl⟩ := Option.map_eq_some_iff.1 found
    exact ⟨old, there, (serial old).symm, held old there⟩
  · exact ⟨live, found, rfl, fun s member => ⟨s, member, rfl⟩⟩

/-- A list in which one entry was changed without its handle. -/
theorem ids_modifyFirst {α : Type} {key : α → Handle} {id : Handle} {change : α → α}
    (keeps : ∀ x, key x = id → key (change x) = id) {list : List α} {x : α}
    (member : x ∈ modifyFirst (fun y => key y = id) change list) :
    ∃ old ∈ list, key old = key x := by
  have listed : key x ∈ (modifyFirst (fun y => key y = id) change list).map key :=
    List.mem_map_of_mem member
  rw [map_key_modifyFirst keeps] at listed
  obtain ⟨old, present, same⟩ := List.mem_map.1 listed
  exact ⟨old, present, same⟩

/-- A modifier's place is in the list of one stat only. -/
theorem modifiers_modified {stat : StatName} {id : Handle} {change : Modifier π → Modifier π}
    (keeps : ∀ m, m.id = id → (change m).id = id) (other : StatName) (m : Modifier π)
    (there : m ∈ (e.modifiers.modify stat id change).get other) :
    ∃ old ∈ e.modifiers.get other, old.id = m.id := by
  rw [ModifierLists.get_modify] at there
  split at there
  · exact ids_modifyFirst keeps there
  · exact ⟨m, there, rfl⟩

theorem Issues.setCondition (e : Entity π) (owner : Owner) (c : Condition π) :
    Issues .none e (e.setCondition owner c) := by
  cases owner with
  | modifier stat id =>
      exact .none (Nat.le_refl _) (modifiers_modified fun _ same => same) (effects_kept rfl)
  | stack effect id =>
      refine .none (Nat.le_refl _) (modifiers_kept rfl) (effects_modified (fun _ => rfl) ?_)
      intro live _ s member
      refine ids_modifyFirst ?_ member
      exact fun _ same => same
  | custom effect serial index =>
      refine .none (Nat.le_refl _) (modifiers_kept rfl) (effects_modified (fun live => ?_) ?_)
      · split
        · rfl
        · rfl
      · intro live _ s member
        split at member
        · exact ⟨s, member, rfl⟩
        · exact ⟨s, member, rfl⟩

theorem Issues.dropModifier {stat : StatName} {id : Handle} (dropped : e.dropModifier? stat id = some e') :
    Issues .none e e' := by
  obtain ⟨⟨m, rest⟩, removed, rfl⟩ := Option.map_eq_some_iff.1 dropped
  refine .none (Nat.le_refl _) (fun other x there => ?_) (effects_kept rfl)
  change x ∈ rest.get other at there
  rw [ModifierLists.get_remove? removed] at there
  split at there
  · exact ⟨x, List.mem_of_mem_eraseP there, rfl⟩
  · exact ⟨x, there, rfl⟩

theorem Issues.dropModifiersOf (e : Entity π) (source : SourceTag) :
    Issues .none e (e.dropModifiersOf source) := by
  refine .none (Nat.le_of_eq (dropModifiersOf_nextHandle e source).symm) (fun stat m there => ?_)
    (effects_kept (dropModifiersOf_effects e source))
  exact ⟨m, (mem_dropModifiersOf.1 there).1, rfl⟩

theorem Issues.detachStack {effect : EffectName} {id : Handle}
    (detached : e.detachStack? effect id = some e') : Issues .none e e' := by
  obtain ⟨live, s, there, stack, rfl⟩ := detachStack?_eq_some detached
  refine .none (Nat.le_refl _) (modifiers_kept rfl) fun name after found => ?_
  change (e.effects.insert _ { live with held := _ }).get? name = some after at found
  rw [Table.get?_insert] at found
  split at found
  · rename_i here
    cases found
    rw [here]
    exact ⟨live, there, rfl, fun s member => ⟨s, List.mem_of_mem_eraseP member, rfl⟩⟩
  · exact ⟨after, found, rfl, fun s member => ⟨s, member, rfl⟩⟩

theorem Issues.dropEffect (e : Entity π) (effect : EffectName) (live : LiveEffect π) :
    Issues .none e (e.dropEffect effect live) := by
  obtain ⟨-, modifiers⟩ := dropEffect_stats e effect live
  refine .none (Nat.le_of_eq (dropEffect_nextHandle e effect live).symm) (modifiers_kept modifiers)
    fun name other there => ?_
  rw [dropEffect_effects, Table.get?_erase] at there
  split at there
  · cases there
  · exact ⟨other, there, rfl, fun s member => ⟨s, member, rfl⟩⟩

variable [CustomTrigger π]

theorem Issues.addModifier (operators : OperatorTable) {m : Modifier π} (new : m.id = e.nextHandle) :
    Issues (some (.modifier m.stat)) e (e.takeHandle.2.addModifier operators m) := by
  refine ⟨Nat.le_succ _, fun _ => Nat.lt_succ_self _, fun id holder holds => ?_⟩
  cases holder with
  | modifier stat =>
      obtain ⟨other, there, rfl⟩ := holds
      change other ∈ (e.modifiers.insert operators m).get stat at there
      rw [ModifierLists.get_insert] at there
      split at there
      · rename_i here
        subst here
        rcases List.mem_cons.1 ((ModifierLists.place_perm ..).mem_iff.1 there) with rfl | old
        · exact .inr ⟨new, rfl⟩
        · exact .inl ⟨other, old, rfl⟩
      · exact .inl ⟨other, there, rfl⟩
  | stack effect => exact .inl holds
  | effect name => exact .inl holds

theorem Issues.pushStack {effect : EffectName} {s : Stack π} (new : s.id = e.nextHandle) :
    Issues (some (.stack effect)) e (e.takeHandle.2.pushStack effect s) := by
  -- The effect's own entry is among those that were there before; only its list of stacks is longer.
  have entry {name : EffectName} {after : LiveEffect π}
      (found : (e.takeHandle.2.pushStack effect s).effects.get? name = some after) :
      ∃ before, e.effects.get? name = some before ∧ after.serial = before.serial ∧
        ∀ stack ∈ after.held, stack ∈ before.held ∨ (stack = s ∧ name = effect) := by
    change (e.modifyEffect effect fun live => { live with held := live.held ++ [s] }).effects.get?
      name = some after at found
    rw [get?_modifyEffect] at found
    split at found
    · rename_i here
      obtain ⟨before, there, rfl⟩ := Option.map_eq_some_iff.1 found
      refine ⟨before, there, rfl, fun stack member => ?_⟩
      rcases List.mem_append.1 member with old | last
      · exact .inl old
      · exact .inr ⟨List.mem_singleton.1 last, here⟩
    · exact ⟨after, found, rfl, fun stack member => .inl member⟩
  refine ⟨Nat.le_succ _, fun _ => Nat.lt_succ_self _, fun id holder holds => ?_⟩
  cases holder with
  | modifier stat => exact .inl holds
  | stack name =>
      obtain ⟨after, found, stack, member, rfl⟩ := holds
      obtain ⟨before, there, -, listed⟩ := entry found
      rcases listed stack member with old | ⟨rfl, rfl⟩
      · exact .inl ⟨before, there, stack, old, rfl⟩
      · exact .inr ⟨new, rfl⟩
  | effect name =>
      obtain ⟨after, found, rfl⟩ := holds
      obtain ⟨before, there, same, -⟩ := entry found
      exact .inl ⟨before, there, same.symm⟩

theorem Issues.addEffect (tidy : e.Tidy) (effect : EffectName) (conditions : List (Condition π)) :
    Issues (some (.effect effect)) e
      (e.acquireEffect.2.addEffect { e.acquireEffect.1 with effect := effect } conditions) := by
  have blank := tidy.acquireEffect_fst
  have next : e.nextHandle < (e.acquireEffect.2.addEffect
      { e.acquireEffect.1 with effect := effect } conditions).nextHandle := by
    rw [addEffect_nextHandle]
    exact Nat.lt_succ_self _
  refine ⟨Nat.le_of_lt next, fun _ => next, fun id holder holds => ?_⟩
  cases holder with
  | modifier stat =>
      obtain ⟨m, there, rfl⟩ := holds
      rw [(addEffect_stats ..).2] at there
      exact .inl ⟨m, there, rfl⟩
  | stack name =>
      obtain ⟨live, found, s, member, rfl⟩ := holds
      rw [addEffect_effects, Table.get?_insert] at found
      split at found
      · cases found
        change s ∈ e.acquireEffect.1.held at member
        rw [blank] at member
        cases member
      · exact .inl ⟨live, found, s, member, rfl⟩
  | effect name =>
      obtain ⟨live, found, rfl⟩ := holds
      rw [addEffect_effects, Table.get?_insert] at found
      split at found
      · rename_i here
        cases found
        rw [here]
        exact .inr ⟨congrArg LiveEffect.serial blank, rfl⟩
      · exact .inl ⟨live, found, rfl⟩

variable {rules : Rulebook π} {stats : List StatName} {effects : List EffectName}

/-- A move gives at most one handle. -/
theorem Move.issues (move : e.Move rules stats effects e') (tidy : e.Tidy) :
    ∃ new, Issues new e e' := by
  have same {e' : Entity π} (handles : e.nextHandle ≤ e'.nextHandle)
      (modifiers : e'.modifiers = e.modifiers) (effects : e'.effects = e.effects) :
      Issues .none e e' :=
    .none handles (modifiers_kept modifiers) (effects_kept effects)
  cases move with
  | takeHandle => exact ⟨_, same (Nat.le_succ _) rfl rfl⟩
  | addModifier new => exact ⟨_, .addModifier rules.operators new⟩
  | updateModifier found owed =>
      refine ⟨_, .none (Nat.le_refl _) (modifiers_modified fun _ _ => ?_) (effects_kept rfl)⟩
      exact of_decide_eq_true (List.find?_some found :)
  | dropModifier dropped => exact ⟨_, .dropModifier dropped⟩
  | dropModifiersOf owed => exact ⟨_, .dropModifiersOf e _⟩
  | pushStack live new lasts => exact ⟨_, .pushStack new⟩
  | @updateStack effect id s found value =>
      refine ⟨_, .none (Nat.le_refl _) (modifiers_kept rfl) (effects_modified (fun _ => rfl) ?_)⟩
      intro live there x member
      obtain ⟨_, -, stack⟩ := Option.bind_eq_some_iff.1 found
      have handle : s.id = id := LiveEffect.id_of_stack? stack
      refine ids_modifyFirst ?_ member
      exact fun _ _ => handle
  | stimulate owner stimulus r there => exact ⟨_, .setCondition e owner _⟩
  | @mergeDuration owner stacking r incoming c there merged =>
      have set := Issues.setCondition e owner c
      exact ⟨_, set.handles, set.counted, set.holds⟩
  | detachStack detached => exact ⟨_, .detachStack detached⟩
  | setStacks found drawn =>
      refine ⟨_, .none (Nat.le_refl _) (modifiers_kept rfl) (effects_modified (fun _ => rfl) ?_)⟩
      intro live there s member
      rw [found] at there
      cases there
      obtain ⟨old, present, same, -⟩ := Stack.Drawn.mem drawn member
      exact ⟨old, present, by rw [same]⟩
  | storeCount found count active owed =>
      refine ⟨_, .none (Nat.le_refl _) (modifiers_kept rfl) (effects_modified (fun _ => rfl) ?_)⟩
      exact fun live there s member => ⟨s, member, rfl⟩
  | addEffect registered absent r => exact ⟨_, .addEffect tidy _ _⟩
  | dropEffect found owed => exact ⟨_, .dropEffect e _ _⟩
  | _ => exact ⟨_, same (Nat.le_refl _) rfl rfl⟩

/-! ### From one entity to a later one -/

/-- An entity and a later one: what was given before stands for nothing new. -/
structure Precedes (e e' : Entity π) : Prop where
  numbered : e'.Numbered
  handles : e.nextHandle ≤ e'.nextHandle
  holds : ∀ id holder, id < e.nextHandle → e'.Holds id holder → e.Holds id holder

def Leads (e e' : Entity π) : Prop := e.Numbered → e.Precedes e'

theorem Leads.refl (e : Entity π) : e.Leads e :=
  fun numbered => ⟨numbered, Nat.le_refl _, fun _ _ _ holds => holds⟩

theorem Leads.trans (first : e₁.Leads e₂) (second : e₂.Leads e₃) : e₁.Leads e₃ := by
  intro numbered
  have before := first numbered
  have after := second before.numbered
  refine ⟨after.numbered, Nat.le_trans before.handles after.handles, fun id holder given holds => ?_⟩
  have earlier := after.holds id holder (Nat.lt_of_lt_of_le given before.handles) holds
  exact before.holds id holder given earlier

/-- The new entry is the only one with its handle, and no other handle stands for more than before. -/
theorem Issues.precedes {new : Option Holder} (issues : Issues new e e') (attended : e'.Attended)
    (numbered : e.Numbered) : e.Precedes e' := by
  have given {id : Handle} {holder : Holder} (holds : e.Holds id holder) : id ≠ e.nextHandle :=
    Nat.ne_of_lt (numbered.attended.tidy.below holds)
  refine ⟨⟨attended, Nat.le_trans numbered.first issues.handles, fun id holder holds => ?_,
    fun id holder other holds holds' => ?_⟩, issues.handles, fun id holder below holds => ?_⟩
  · rcases issues.holds id holder holds with old | ⟨rfl, -⟩
    · exact numbered.positive id holder old
    · exact numbered.first
  · rcases issues.holds id holder holds with old | ⟨next, newly⟩
    · rcases issues.holds id other holds' with old' | ⟨next, -⟩
      · exact numbered.unique id holder other old old'
      · exact absurd next (given old)
    · rcases issues.holds id other holds' with old' | ⟨-, newly'⟩
      · exact absurd next (given old')
      · exact Option.some.inj (newly.symm.trans newly')
  · rcases issues.holds id holder holds with old | ⟨rfl, -⟩
    · exact old
    · exact absurd below (Nat.lt_irrefl _)

theorem Move.leads (move : e.Move rules stats effects e') : e.Leads e' := by
  intro numbered
  obtain ⟨new, issues⟩ := move.issues numbered.attended.tidy
  exact issues.precedes (move.attended numbered.attended) numbered

theorem Moves.leads (moves : e.Moves rules stats e') : e.Leads e' := by
  induction moves with
  | refl => exact .refl e
  | step before move listed ih => exact ih.trans move.leads

theorem Leads.walk {change : Timers → Timers}
    (walk : change = Timers.startWalk ∨ change = Timers.endWalk) (e : Entity π) :
    e.Leads { e with timers := change e.timers } := by
  intro numbered
  have issues : Issues .none e { e with timers := change e.timers } :=
    .none (Nat.le_refl _) (modifiers_kept rfl) (effects_kept rfl)
  exact issues.precedes (numbered.attended.walks walk) numbered

theorem Numbered.start (values : Table StatValue) :
    Numbered ({ Entity.new with values := values } : Entity π) := by
  have nothing (id : Handle) (holder : Holder) :
      ¬Holds ({ Entity.new with values := values } : Entity π) id holder := by
    intro holds
    cases holder with
    | modifier stat =>
        obtain ⟨m, there, -⟩ := holds
        cases there
    | stack effect =>
        obtain ⟨live, found, -⟩ := holds
        cases found
    | effect name =>
        obtain ⟨live, found, -⟩ := holds
        cases found
  exact ⟨.start values, Nat.le_refl _, fun id holder holds => absurd holds (nothing id holder),
    fun id holder other holds => absurd holds (nothing id holder)⟩

end Entity

open Entity

variable [CustomTrigger π] {rules : Rulebook π}

theorem Engine.admits_leads (rules : Rulebook π) : Engine.Admits rules (Shows Leads) :=
  .of_shown .refl Leads.trans Move.leads (Leads.walk (.inl rfl)) (Leads.walk (.inr rfl))

/-! ### Handles that stand for nothing -/

namespace Entity

variable {e : Entity π} {id : Handle} (nothing : ∀ holder, ¬e.Holds id holder)

include nothing

omit [CustomTrigger π]

theorem find?_of_nothing (stat : StatName) : e.modifiers.find? stat id = none := by
  refine List.find?_eq_none.2 fun m there same => nothing (.modifier stat) ⟨m, there, ?_⟩
  exact of_decide_eq_true same

theorem statOf?_of_nothing : e.modifiers.statOf? id = none := by
  unfold ModifierLists.statOf?
  rw [Option.map_eq_none_iff, List.find?_eq_none]
  intro entry listed found
  obtain ⟨m, there, same⟩ := List.any_eq_true.1 found
  refine nothing (.modifier entry.1) ⟨m, ?_, of_decide_eq_true same⟩
  rw [ModifierLists.get, Table.mem_entries_iff.1 listed, Option.getD_some]
  exact there

theorem stack?_of_nothing (effect : EffectName) : e.stack? effect id = none := by
  unfold Entity.stack?
  cases found : e.effects.get? effect with
  | none => rfl
  | some live =>
      rw [Option.bind_some]
      refine List.find?_eq_none.2 fun s member same => nothing (.stack effect) ⟨live, found, s, member, ?_⟩
      exact of_decide_eq_true same

theorem condition_of_nothing {owner : Owner} (named : owner.handle = id) :
    e.condition owner = .absent := by
  cases owner with
  | modifier stat own =>
      change own = id at named
      unfold Entity.condition
      dsimp only
      rw [named, find?_of_nothing nothing stat]
      rfl
  | stack effect own =>
      change own = id at named
      unfold Entity.condition
      dsimp only
      rw [named, stack?_of_nothing nothing effect]
      rfl
  | custom effect serial index =>
      change serial = id at named
      unfold Entity.condition
      dsimp only
      split
      · rename_i live found
        refine if_neg fun same => nothing (.effect effect) ⟨live, found, same.trans named⟩
      · rfl

end Entity

namespace Engine

variable {nested : Nested π} {w : World π} {id : Handle} (nothing : ∀ holder, ¬w.entity.Holds id holder)

include nothing

omit [CustomTrigger π] in
theorem removeModifier_of_nothing : removeModifier nested id w = .ok false w := by
  rw [removeModifier, Act.entity_bind, statOf?_of_nothing nothing]
  rfl

theorem removeStack_of_nothing (effect : EffectName) :
    removeStack nested rules effect id w = .ok false w := by
  rw [removeStack, Act.entity_bind, detachStack?_eq_none.2 (stack?_of_nothing nothing effect)]
  rfl

variable {owner : Owner} (named : owner.handle = id)

include named

theorem expose_of_nothing (stimulus : Stimulus) : expose nested rules owner stimulus w = .ok () w := by
  have untouched : stimulate rules owner stimulus w = .ok false w := by
    have absent : updateCondition rules owner (Stimulus.apply stimulus) w = .ok none w := by
      rw [updateCondition, Act.entity_bind, condition_of_nothing nothing named]
      rfl
    rw [stimulate, Act.bind_run absent]
    rfl
  rw [expose, Act.bind_run untouched]
  rfl

theorem react_of_nothing : react nested rules owner w = .ok () w := by
  cases owner with
  | modifier stat own =>
      change own = id at named
      subst named
      change modifierStimulated nested stat own w = _
      rw [modifierStimulated, Act.entity_bind, find?_of_nothing nothing stat]
      rfl
  | stack effect own =>
      change own = id at named
      subst named
      change stackStimulated nested rules effect own w = _
      rw [stackStimulated, Act.entity_bind, stack?_of_nothing nothing effect]
      rfl
  | custom effect serial index =>
      change customStimulated nested rules effect serial index w = _
      rw [customStimulated, Act.entity_bind, condition_of_nothing nothing named]
      rfl

end Engine

/-! ### Runs -/

section

variable {snapshots : Snapshot → Prop} {calls : Entity π → Call π → Prop} {states : List (Entity π)}
  {w : World π}

theorem Chronicle.leads (chronicle : Chronicle rules snapshots calls states w) :
    states.Pairwise fun later earlier => earlier.Leads later :=
  chronicle.pairwise Leads.trans (Engine.admits_leads rules)

theorem Chronicle.numbered (chronicle : Chronicle rules snapshots calls states w) :
    ∀ e ∈ states, e.Numbered := by
  obtain ⟨later, values, rfl⟩ := chronicle.earliest
  obtain ⟨-, -, from_start⟩ := List.pairwise_append.1 chronicle.leads
  intro e listed
  rcases List.mem_append.1 listed with after | start
  · exact (from_start e after _ (List.mem_singleton_self _) (.start values)).numbered
  · rw [List.mem_singleton.1 start]
    exact .start values

/-- Once what a handle stood for is gone, the handle stands for nothing ever after. -/
theorem Chronicle.nothing_since {since before : List (Entity π)} {gone old e : Entity π}
    {id : Handle} {holder : Holder}
    (chronicle : Chronicle rules snapshots calls (since ++ gone :: before) w) (earlier : old ∈ before)
    (held : old.Holds id holder) (lost : ¬gone.Holds id holder) (later : e ∈ since ++ [gone]) :
    ∀ other, ¬e.Holds id other := by
  obtain ⟨-, leads, across⟩ := List.pairwise_append.1 chronicle.leads
  have listed : gone ∈ since ++ gone :: before := List.mem_append_right _ (List.mem_cons_self ..)
  have numbered := chronicle.numbered old
    (List.mem_append_right _ (List.mem_cons_of_mem _ earlier))
  have precedes := (List.pairwise_cons.1 leads).1 old earlier numbered
  have given := numbered.attended.tidy.below held
  -- What the handle stood for when the entry was gone, it stood for before, and that was the entry.
  have nothing (other : Holder) : ¬gone.Holds id other := by
    intro holds
    have same := numbered.unique id holder other held (precedes.holds id other given holds)
    exact lost (same ▸ holds)
  intro other holds
  rcases List.mem_append.1 later with after | now
  · have follows := across e after gone (List.mem_cons_self ..) (chronicle.numbered gone listed)
    have below := Nat.lt_of_lt_of_le given precedes.handles
    exact nothing other (follows.holds id other below holds)
  · rw [List.mem_singleton.1 now] at holds
    exact nothing other holds

/-- At every moment of a run the handles of modifiers, stacks and live effects are pairwise different,
positive and less than the next one, which never decreases. Once a modifier, a stack or a live effect
is gone, its handle names nothing: taking out what it names changes nothing and tells nobody, and so
does every event for an owner with that handle. -/
theorem handles_never_reused (chronicle : Chronicle rules snapshots calls states w) :
    (∀ e ∈ states, e.handles.Nodup ∧ ∀ id ∈ e.handles, 1 ≤ id ∧ id < e.nextHandle) ∧
    (states.Pairwise fun later earlier => earlier.nextHandle ≤ later.nextHandle) ∧
    ∀ since gone before, states = since ++ gone :: before → ∀ old ∈ before, ∀ id holder,
      old.Holds id holder → ¬gone.Holds id holder → ∀ e ∈ since ++ [gone],
        ∀ (nested : Nested π) (w : World π), w.entity = e →
          Engine.performWith nested rules (.removeModifier id) w = .ok false w ∧
          (∀ effect, Engine.performWith nested rules (.removeStack effect id) w = .ok false w) ∧
          ∀ owner : Owner, owner.handle = id →
            (∀ stimulus, Engine.expose nested rules owner stimulus w = .ok () w) ∧
            Engine.react nested rules owner w = .ok () w := by
  refine ⟨fun e listed => ?_, ?_, ?_⟩
  · have numbered := chronicle.numbered e listed
    refine ⟨numbered.nodup, fun id named => ?_⟩
    obtain ⟨holder, holds⟩ := mem_handles.1 named
    exact ⟨numbered.positive id holder holds, numbered.attended.tidy.below holds⟩
  · refine chronicle.leads.imp_of_mem fun {later earlier} _ listed leads => ?_
    exact (leads (chronicle.numbered earlier listed)).handles
  · rintro since gone before rfl old earlier id holder held lost e later nested w rfl
    have nothing := chronicle.nothing_since earlier held lost later
    exact ⟨Engine.removeModifier_of_nothing nothing, Engine.removeStack_of_nothing nothing,
      fun owner named => ⟨Engine.expose_of_nothing nothing named,
        Engine.react_of_nothing nothing named⟩⟩

end

/-- An effect ends with its only stack and begins again with another one, which the handle of the
first does not name. -/
theorem haste_handle_spent : ∃ (states : List (Entity Empty)) (w : World Empty),
    Chronicle hasteRules (fun _ => True) (fun _ _ => True) states w ∧
    w.entity.effects.contains "haste" = true ∧
    Engine.perform hasteRules 6 (.removeStack "haste" 2) w = .ok false w ∧
    Engine.expose (Engine.serve hasteRules 6) hasteRules (.stack "haste" 2) (.time 1) w =
      .ok () w := by
  have made : ((Engine.performAll hasteRules 6 [.addStack "haste" (.ofValue 1) none]
      (.ofEntity .new)).any fun w₁ => (w₁.entity.stack? "haste" 2).isSome &&
        (Engine.performAll hasteRules 6 [.removeStack "haste" 2] w₁).any fun w₂ =>
          (w₂.entity.effects.get? "haste").isNone &&
            (Engine.performAll hasteRules 6 [.addStack "haste" (.ofValue 1) none] w₂).any fun w₃ =>
              w₃.entity.effects.contains "haste") = true := by
    decide +kernel
  obtain ⟨w₁, run₁, checked⟩ := (Option.any_eq_true ..).1 made
  obtain ⟨there, checked⟩ := Bool.and_eq_true_iff.1 checked
  obtain ⟨w₂, run₂, checked⟩ := (Option.any_eq_true ..).1 checked
  obtain ⟨absent, checked⟩ := Bool.and_eq_true_iff.1 checked
  obtain ⟨w₃, run₃, again⟩ := (Option.any_eq_true ..).1 checked
  obtain ⟨_, returns₁⟩ := Engine.perform_of_performAll run₁
  obtain ⟨_, returns₂⟩ := Engine.perform_of_performAll run₂
  obtain ⟨_, returns₃⟩ := Engine.perform_of_performAll run₃
  have start : Chronicle hasteRules (fun _ => True) (fun _ _ => True) [.new] (.ofEntity .new) := .new
  obtain ⟨shown₁, first⟩ := start.extend trivial returns₁
  obtain ⟨shown₂, second⟩ := first.extend trivial returns₂
  obtain ⟨shown₃, third⟩ := second.extend trivial returns₃
  have held : w₁.entity.Holds 2 (.stack "haste") := by
    obtain ⟨s, found⟩ := Option.isSome_iff_exists.1 there
    obtain ⟨live, listed, stack⟩ := Option.bind_eq_some_iff.1 found
    exact ⟨live, listed, s, List.mem_of_find?_eq_some stack, LiveEffect.id_of_stack? stack⟩
  have lost : ¬w₂.entity.Holds 2 (.stack "haste") := by
    rintro ⟨live, found, -⟩
    rw [found] at absent
    cases absent
  obtain ⟨-, -, inert⟩ := handles_never_reused third
  obtain ⟨-, removes, events⟩ := inert (w₃.entity :: shown₃) w₂.entity
    (shown₂ ++ (w₁.entity :: shown₁ ++ [.new])) rfl w₁.entity (by simp) 2 (.stack "haste") held lost
    w₃.entity (by simp) (Engine.serve hasteRules 6) w₃ rfl
  exact ⟨_, w₃, third, again, removes "haste", (events (.stack "haste" 2) rfl).1 (.time 1)⟩

end StatusEffects
