import StatusEffects.Proofs.Dependencies
import StatusEffects.Proofs.Wiring

/-!
What quiet changes do to the condition trees of an entity and to their subscriptions.

A change sheds if it only takes owners away, and revises an owner if it gives it a tree or an
activity. Both leave every other owner with its tree and its subscriptions.
-/

set_option autoImplicit false

namespace StatusEffects

variable {π : Type}

def Stack.gist (s : Stack π) : Stack π := { s with value := 0, attached := false }

namespace Entity

variable {e e' : Entity π}

/-- An owner bore a tree before, and it still watches what it watched. -/
def Kept (e e' : Entity π) (owner : Owner) (c : Condition π) (gate : Option Gate) : Prop :=
  e.Bears owner c gate ∧ ∀ stat, owner ∈ e.watchers.get stat → owner ∈ e'.watchers.get stat

/-- Every owner that is left bears what it bore and watches what it watched. -/
def Sheds (e e' : Entity π) : Prop :=
  ∀ owner c gate, e'.Bears owner c gate → e.Kept e' owner c gate

/-- One owner gets a tree and an activity, and the others are left as they are. -/
structure Revises (e e' : Entity π) (owner : Owner) (c' : Condition π) (gate' : Option Gate) :
    Prop where
  others : ∀ other c gate, e'.Bears other c gate → other ≠ owner → e.Kept e' other c gate
  own : ∀ c gate, e'.Bears owner c gate → c = c' ∧ gate = gate'

theorem Sheds.refl (e : Entity π) : e.Sheds e := fun _ _ _ bears => ⟨bears, fun _ => id⟩

theorem Sheds.trans {e₁ e₂ e₃ : Entity π} (first : e₁.Sheds e₂) (second : e₂.Sheds e₃) :
    e₁.Sheds e₃ := by
  intro owner c gate bears
  obtain ⟨bears₂, watches₂⟩ := second owner c gate bears
  obtain ⟨bears₁, watches₁⟩ := first owner c gate bears₂
  exact ⟨bears₁, fun stat member => watches₂ stat (watches₁ stat member)⟩

/-- A tree stays with its owner if its entry was there before with the same tree. -/
theorem Bears.of_fewer {owner : Owner} {c : Condition π} {gate : Option Gate}
    (bears : e'.Bears owner c gate)
    (modifiers : ∀ stat, ∀ m ∈ e'.modifiers.get stat, m ∈ e.modifiers.get stat)
    (effects : ∀ effect live', e'.effects.get? effect = some live' →
      ∃ live, e.effects.get? effect = some live ∧ live'.serial = live.serial ∧
        live'.conditions = live.conditions ∧
        ∀ s ∈ live'.held, ∃ before ∈ live.held, before.gist = s.gist) :
    e.Bears owner c gate := by
  cases bears with
  | @modifier stat m member => exact .modifier (modifiers stat m member)
  | @stack effect live' s found member =>
      obtain ⟨live, there, -, -, origins⟩ := effects effect live' found
      obtain ⟨before, present, same⟩ := origins s member
      have id : before.id = s.id := (congrArg Stack.id same :)
      have duration : before.duration = s.duration := (congrArg Stack.duration same :)
      have active : before.active = s.active := (congrArg Stack.active same :)
      have sourced : before.isSourced = s.isSourced := (congrArg Stack.isSourced same :)
      rw [← id, ← duration, ← active, ← sourced]
      exact .stack there present
  | @custom effect live' index c found placed =>
      obtain ⟨live, there, serial, conditions, -⟩ := effects effect live' found
      rw [serial]
      rw [conditions] at placed
      exact .custom there placed

theorem Bears.of_same {owner : Owner} {c : Condition π} {gate : Option Gate}
    (bears : e'.Bears owner c gate) (modifiers : e'.modifiers = e.modifiers)
    (effects : e'.effects = e.effects) : e.Bears owner c gate := by
  refine bears.of_fewer (fun stat m => ?_) fun effect live' found => ?_
  · rw [modifiers]
    exact id
  · rw [effects] at found
    exact ⟨live', found, rfl, rfl, fun s member => ⟨s, member, rfl⟩⟩

/-- What became of an owner does not matter when it goes. -/
theorem Revises.sheds {e₁ : Entity π} {owner : Owner} {c' : Condition π} {gate' : Option Gate}
    (revises : e.Revises e₁ owner c' gate') (sheds : e₁.Sheds e')
    (gone : ∀ c gate, ¬e'.Bears owner c gate) : e.Sheds e' := by
  intro other c gate bears
  obtain ⟨bears₁, watches₁⟩ := sheds other c gate bears
  have different : other ≠ owner := by
    rintro rfl
    exact gone c gate bears
  obtain ⟨before, watches⟩ := revises.others other c gate bears₁ different
  exact ⟨before, fun stat member => watches₁ stat (watches stat member)⟩

theorem Sheds.of_same (modifiers : e'.modifiers = e.modifiers) (effects : e'.effects = e.effects)
    (watchers : e'.watchers = e.watchers) : e.Sheds e' := by
  intro owner c gate bears
  refine ⟨bears.of_same modifiers effects, fun stat => ?_⟩
  rw [watchers]
  exact id

/-! ### Subscriptions -/

theorem watchers_unsubscribe {owner other : Owner} {stat : StatName} (different : other ≠ owner)
    (member : other ∈ e.watchers.get stat) : other ∈ (e.unsubscribe owner).watchers.get stat :=
  Watchers.mem_get_remove.2 ⟨member, different⟩

theorem watchers_subscribe {owner other : Owner} {interests : Interests} {stat : StatName} :
    other ∈ (e.subscribe owner interests).watchers.get stat ↔
      other ∈ e.watchers.get stat ∨
        (other = owner ∧ interests.stats.contains stat = true) := by
  unfold Entity.subscribe
  rw [Watchers.mem_get_foldl_insert, Table.mem_keys]

theorem watchers_retireModifiers {removed : List (Modifier π)} {owner : Owner} {stat : StatName}
    (others : ∀ m ∈ removed, owner ≠ .modifier m.stat m.id) (member : owner ∈ e.watchers.get stat) :
    owner ∈ (e.retireModifiers removed).watchers.get stat :=
  List.foldlRecOn (motive := fun e' : Entity π => owner ∈ e'.watchers.get stat) removed _ member
    fun _ before m gone => watchers_unsubscribe (others m gone) before

/-! ### Modifiers that go -/

theorem not_bears_modifier {stat : StatName} {id : Handle}
    (absent : e.modifiers.find? stat id = none) (c : Condition π) (gate : Option Gate) :
    ¬e.Bears (.modifier stat id) c gate := by
  intro bears
  generalize owned : Owner.modifier stat id = owner at bears
  cases bears with
  | @modifier stat' m member =>
      obtain ⟨rfl, rfl⟩ := Owner.modifier.inj owned
      have different := List.find?_eq_none.1 absent m member
      simp at different
  | stack => cases owned
  | custom => cases owned

theorem Tidy.gone_dropModifier? (tidy : e.Tidy) {stat : StatName} {id : Handle}
    (dropped : e.dropModifier? stat id = some e') (c : Condition π) (gate : Option Gate) :
    ¬e'.Bears (.modifier stat id) c gate := by
  obtain ⟨⟨m, modifiers⟩, removed, rfl⟩ := Option.map_eq_some_iff.1 dropped
  apply not_bears_modifier
  change modifiers.find? stat id = none
  rw [ModifierLists.find?, ModifierLists.get_remove? removed, if_pos rfl,
    eraseP_eq_filter_of_nodup (tidy.distinct stat)]
  simp

theorem Tidy.sheds_dropModifier? (tidy : e.Tidy) {stat : StatName} {id : Handle}
    (dropped : e.dropModifier? stat id = some e') : e.Sheds e' := by
  obtain ⟨⟨m, modifiers⟩, removed, rfl⟩ := Option.map_eq_some_iff.1 dropped
  intro owner c gate bears
  have before : e.Bears owner c gate := by
    refine bears.of_fewer (fun other x member => ?_) fun effect live' found =>
      ⟨live', found, rfl, rfl, fun s member => ⟨s, member, rfl⟩⟩
    change x ∈ modifiers.get other at member
    rw [ModifierLists.get_remove? removed] at member
    split at member
    · exact List.mem_of_mem_eraseP member
    · exact member
  refine ⟨before, fun other member => watchers_unsubscribe ?_ member⟩
  rintro rfl
  exact tidy.gone_dropModifier? dropped c gate bears

theorem Tidy.gone_dropModifiersOf (tidy : e.Tidy) {source : SourceTag} {m : Modifier π}
    (gone : m ∈ e.modifiers.ofSource (some source)) (c : Condition π) (gate : Option Gate) :
    ¬(e.dropModifiersOf source).Bears (.modifier m.stat m.id) c gate := by
  obtain ⟨⟨stat, present⟩, sourced⟩ := ModifierLists.mem_ofSource.1 gone
  intro bears
  generalize owned : Owner.modifier m.stat m.id = owner at bears
  cases bears with
  | @modifier stat' x member =>
      obtain ⟨stats, ids⟩ := Owner.modifier.inj owned
      rw [tidy.filed stat m present] at stats
      subst stats
      obtain ⟨there, others⟩ := mem_dropModifiersOf.1 member
      have same := (tidy.find?_of_mem present).symm.trans (ids ▸ tidy.find?_of_mem there)
      exact others (Option.some.inj same ▸ sourced)
  | stack => cases owned
  | custom => cases owned

theorem Tidy.sheds_dropModifiersOf (tidy : e.Tidy) (source : SourceTag) :
    e.Sheds (e.dropModifiersOf source) := by
  intro owner c gate bears
  have before : e.Bears owner c gate := by
    refine bears.of_fewer (fun stat m member => (mem_dropModifiersOf.1 member).1)
      fun effect live' found => ?_
    rw [dropModifiersOf_effects] at found
    exact ⟨live', found, rfl, rfl, fun s member => ⟨s, member, rfl⟩⟩
  refine ⟨before, fun stat watching => ?_⟩
  rw [Entity.dropModifiersOf]
  refine watchers_retireModifiers (fun removed gone => ?_) watching
  rintro rfl
  exact tidy.gone_dropModifiersOf gone c gate bears

/-! ### Stacks that go or change in value -/

theorem not_bears_stack {effect : EffectName} {id : Handle} (absent : e.stack? effect id = none)
    (c : Condition π) (gate : Option Gate) : ¬e.Bears (.stack effect id) c gate := by
  intro bears
  generalize owned : Owner.stack effect id = owner at bears
  cases bears with
  | @stack effect' live s lives member =>
      obtain ⟨rfl, rfl⟩ := Owner.stack.inj owned
      rw [Entity.stack?, lives, Option.bind_some] at absent
      have different := List.find?_eq_none.1 absent s member
      simp at different
  | modifier => cases owned
  | custom => cases owned

theorem Tidy.gone_detachStack? (tidy : e.Tidy) {effect : EffectName} {id : Handle}
    (detached : e.detachStack? effect id = some e') (c : Condition π) (gate : Option Gate) :
    ¬e'.Bears (.stack effect id) c gate := by
  apply not_bears_stack
  rw [Entity.stack?, tidy.effects_detachStack? detached, Table.get?_modify, if_pos rfl]
  cases e.effects.get? effect with
  | none => rfl
  | some live =>
      rw [Option.map_some, Option.bind_some, LiveEffect.stack?, LiveEffect.without,
        List.find?_eq_none]
      intro s member same
      have kept := (List.mem_filter.1 member).2
      simp only [List.mem_singleton, decide_eq_true_eq] at kept same
      exact kept same

theorem Tidy.sheds_detachStack? (tidy : e.Tidy) {effect : EffectName} {id : Handle}
    (detached : e.detachStack? effect id = some e') : e.Sheds e' := by
  have changed := tidy.effects_detachStack? detached
  obtain ⟨live, s, found, -, rfl⟩ := detachStack?_eq_some detached
  intro owner c gate bears
  have before : e.Bears owner c gate := by
    refine bears.of_fewer (fun _ _ present => present) fun name live' there => ?_
    rw [changed, Table.get?_modify] at there
    split at there
    · obtain ⟨live, lives, rfl⟩ := Option.map_eq_some_iff.1 there
      exact ⟨live, lives, rfl, rfl, fun s member => ⟨s, (List.mem_filter.1 member).1, rfl⟩⟩
    · exact ⟨live', there, rfl, rfl, fun s member => ⟨s, member, rfl⟩⟩
  refine ⟨before, fun stat member => watchers_unsubscribe ?_ member⟩
  rintro rfl
  exact tidy.gone_detachStack? detached c gate bears

theorem Tidy.sheds_detachStacks (tidy : e.Tidy) (effect : EffectName) (ids : List Handle) :
    e.Sheds (e.detachStacks effect ids).2 := by
  have both := detachStacks_induct (e := e) (motive := fun e' => e'.Tidy ∧ e.Sheds e') effect
    (fun e₁ e₂ id detached before => ⟨before.1.detachStack? detached,
      before.2.trans (before.1.sheds_detachStack? detached)⟩) ids ⟨tidy, .refl e⟩
  exact both.2

/-- Live effects may change in what does not concern trees. -/
theorem sheds_modifyEffect {effect : EffectName} {change : LiveEffect π → LiveEffect π}
    (same : ∀ live, e.effects.get? effect = some live → (change live).serial = live.serial ∧
      (change live).conditions = live.conditions ∧
      ∀ s ∈ (change live).held, ∃ before ∈ live.held, before.gist = s.gist) :
    e.Sheds (e.modifyEffect effect change) := by
  intro owner c gate bears
  refine ⟨bears.of_fewer (fun _ _ => id) fun name live' found => ?_, fun _ => id⟩
  rw [get?_modifyEffect] at found
  split at found
  · rename_i here
    subst here
    obtain ⟨live, there, rfl⟩ := Option.map_eq_some_iff.1 found
    exact ⟨live, there, same live there⟩
  · exact ⟨live', found, rfl, rfl, fun s member => ⟨s, member, rfl⟩⟩

theorem sheds_storeCount (e : Entity π) (effect : EffectName) (count : UInt32) (active : Bool) :
    e.Sheds (e.storeCount effect count active) :=
  sheds_modifyEffect fun _ _ => ⟨rfl, rfl, fun s member => ⟨s, member, rfl⟩⟩

/-! ### Effects that go -/

theorem watchers_dropEffect {effect : EffectName} {live : LiveEffect π} {owner : Owner}
    {stat : StatName} (noStack : ∀ id, owner ≠ .stack effect id)
    (noCustom : ∀ serial index, owner ≠ .custom effect serial index)
    (member : owner ∈ e.watchers.get stat) :
    owner ∈ (e.dropEffect effect live).watchers.get stat := by
  have unheld := List.foldlRecOn (motive := fun e' : Entity π => owner ∈ e'.watchers.get stat)
    live.held (fun e s => e.unsubscribe (.stack effect s.id))
    (b := { e with effects := e.effects.erase effect }) member
    fun _ before _ _ => watchers_unsubscribe (noStack _) before
  exact List.foldlRecOn (motive := fun e' : Entity π => owner ∈ e'.watchers.get stat)
    (List.range live.conditions.length) _ unheld
    fun _ before _ _ => watchers_unsubscribe (noCustom _ _) before

theorem sheds_dropEffect (e : Entity π) (effect : EffectName) (live : LiveEffect π) :
    e.Sheds (e.dropEffect effect live) := by
  obtain ⟨-, modifiers⟩ := dropEffect_stats e effect live
  have kept {name : EffectName} {other : LiveEffect π}
      (found : (e.dropEffect effect live).effects.get? name = some other) :
      name ≠ effect ∧ e.effects.get? name = some other := by
    rw [dropEffect_effects, Table.get?_erase] at found
    split at found
    · cases found
    · rename_i different
      exact ⟨different, found⟩
  intro owner c gate bears
  constructor
  · refine bears.of_fewer (fun stat m => ?_) fun name other found => ?_
    · rw [modifiers]
      exact id
    · exact ⟨other, (kept found).2, rfl, rfl, fun s member => ⟨s, member, rfl⟩⟩
  · intro stat
    cases bears with
    | modifier _ => exact watchers_dropEffect (fun _ => nofun) fun _ _ => nofun
    | stack found _ =>
        refine watchers_dropEffect (fun id same => ?_) fun _ _ => nofun
        exact (kept found).1 (Owner.stack.inj same).1
    | custom found _ =>
        refine watchers_dropEffect (fun _ => nofun) fun serial index same => ?_
        exact (kept found).1 (Owner.custom.inj same).1

/-! ### Trees and activities that change -/

theorem Tidy.revises_modify (tidy : e.Tidy) {stat : StatName} {id : Handle} {m : Modifier π}
    (found : e.modifiers.find? stat id = some m) {change : Modifier π → Modifier π}
    (same : (change m).id = id) :
    e.Revises { e with modifiers := e.modifiers.modify stat id change } (.modifier stat id)
      (change m).duration (some ⟨(change m).active, (change m).isSourced⟩) := by
  have stems (other : StatName) (x : Modifier π)
      (member : x ∈ (e.modifiers.modify stat id change).get other) :
      (x ∈ e.modifiers.get other ∧ (other = stat → x.id ≠ id)) ∨ (other = stat ∧ x = change m) := by
    rw [ModifierLists.get_modify] at member
    split at member
    · rename_i here
      subst here
      rcases mem_modifyFirst_of_nodup (tidy.distinct other) found member with ⟨present, different⟩ | rfl
      · exact .inl ⟨present, fun _ => different⟩
      · exact .inr ⟨rfl, rfl⟩
    · rename_i elsewhere
      exact .inl ⟨member, fun here => absurd here elsewhere⟩
  constructor
  · intro other c gate bears different
    refine ⟨?_, fun _ watching => watching⟩
    cases bears with
    | @modifier stat' x member =>
        rcases stems stat' x member with ⟨before, -⟩ | ⟨rfl, rfl⟩
        · exact .modifier before
        · rw [same] at different
          exact absurd rfl different
    | stack lives member => exact .stack lives member
    | custom lives placed => exact .custom lives placed
  · intro c gate bears
    generalize owned : Owner.modifier stat id = owner at bears
    cases bears with
    | @modifier stat' x member =>
        obtain ⟨rfl, rfl⟩ := Owner.modifier.inj owned
        rcases stems stat x member with ⟨-, different⟩ | ⟨-, rfl⟩
        · exact absurd rfl (different rfl)
        · exact ⟨rfl, rfl⟩
    | stack => cases owned
    | custom => cases owned

theorem Tidy.revises_updateModifier (tidy : e.Tidy) {stat : StatName} {id : Handle}
    {m m' : Modifier π} (found : e.modifiers.find? stat id = some m) (same : m'.id = id) :
    e.Revises (e.updateModifier stat id m') (.modifier stat id) m'.duration
      (some ⟨m'.active, m'.isSourced⟩) :=
  tidy.revises_modify found same

theorem Tidy.revises_modifyStack (tidy : e.Tidy) {effect : EffectName} {id : Handle} {s : Stack π}
    (found : e.stack? effect id = some s) {change : Stack π → Stack π}
    (same : (change s).id = id) :
    e.Revises (e.modifyEffect effect fun live => live.modifyStack id change) (.stack effect id)
      (change s).duration (some ⟨(change s).active, (change s).isSourced⟩) := by
  obtain ⟨live, there, stack⟩ := Option.bind_eq_some_iff.1 found
  have distinct := (tidy.effects effect live there).distinct
  have stems (name : EffectName) (live' : LiveEffect π)
      (lives : (e.modifyEffect effect fun live => live.modifyStack id change).effects.get? name =
        some live') : ∃ before, e.effects.get? name = some before ∧
          live'.serial = before.serial ∧ live'.conditions = before.conditions ∧
          ∀ x ∈ live'.held, (x ∈ before.held ∧ (name = effect → x.id ≠ id)) ∨
            (name = effect ∧ x = change s) := by
    rw [get?_modifyEffect] at lives
    split at lives
    · rename_i here
      subst here
      rw [there, Option.map_some] at lives
      cases lives
      refine ⟨live, there, rfl, rfl, fun x member => ?_⟩
      rcases mem_modifyFirst_of_nodup distinct stack member with ⟨present, different⟩ | rfl
      · exact .inl ⟨present, fun _ => different⟩
      · exact .inr ⟨rfl, rfl⟩
    · rename_i elsewhere
      exact ⟨live', lives, rfl, rfl, fun x member => .inl ⟨member, fun here => absurd here elsewhere⟩⟩
  constructor
  · intro other c gate bears different
    refine ⟨?_, fun _ watching => watching⟩
    cases bears with
    | modifier member => exact .modifier member
    | @stack name live' x lives member =>
        obtain ⟨before, earlier, -, -, origins⟩ := stems name live' lives
        rcases origins x member with ⟨present, -⟩ | ⟨rfl, rfl⟩
        · exact .stack earlier present
        · rw [same] at different
          exact absurd rfl different
    | @custom name live' index c lives placed =>
        obtain ⟨before, earlier, serial, conditions, -⟩ := stems name live' lives
        rw [serial]
        rw [conditions] at placed
        exact .custom earlier placed
  · intro c gate bears
    generalize owned : Owner.stack effect id = owner at bears
    cases bears with
    | @stack name live' x lives member =>
        obtain ⟨rfl, rfl⟩ := Owner.stack.inj owned
        obtain ⟨before, earlier, -, -, origins⟩ := stems effect live' lives
        rcases origins x member with ⟨-, different⟩ | ⟨-, rfl⟩
        · exact absurd rfl (different rfl)
        · exact ⟨rfl, rfl⟩
    | modifier => cases owned
    | custom => cases owned

theorem Tidy.revises_updateStack (tidy : e.Tidy) {effect : EffectName} {id : Handle}
    {s s' : Stack π} (found : e.stack? effect id = some s) (same : s'.id = id) :
    e.Revises (e.updateStack effect id s') (.stack effect id) s'.duration
      (some ⟨s'.active, s'.isSourced⟩) :=
  tidy.revises_modifyStack found same

theorem revises_modifyInstance {effect : EffectName} {live : LiveEffect π} {index : Nat}
    {c : Condition π} (lives : e.effects.get? effect = some live)
    (placed : live.conditions[index]? = some c) (c' : Condition π) :
    e.Revises (e.modifyInstance effect live.serial fun live =>
        { live with conditions := live.conditions.set index c' })
      (.custom effect live.serial index) c' none := by
  have stems (name : EffectName) (live' : LiveEffect π)
      (found : (e.modifyInstance effect live.serial fun live =>
        { live with conditions := live.conditions.set index c' }).effects.get? name = some live') :
      ∃ before, e.effects.get? name = some before ∧ live'.serial = before.serial ∧
        live'.held = before.held ∧
        live'.conditions = if name = effect then before.conditions.set index c'
          else before.conditions := by
    rw [Entity.modifyInstance, get?_modifyEffect] at found
    split at found
    · rename_i here
      subst here
      rw [lives, Option.map_some, if_pos rfl] at found
      cases found
      exact ⟨live, lives, rfl, rfl, (if_pos rfl).symm⟩
    · rename_i elsewhere
      exact ⟨live', found, rfl, rfl, (if_neg elsewhere).symm⟩
  constructor
  · intro other d gate bears different
    refine ⟨?_, fun _ => id⟩
    cases bears with
    | modifier member => exact .modifier member
    | @stack name live' x found member =>
        obtain ⟨before, earlier, -, held, -⟩ := stems name live' found
        rw [held] at member
        exact .stack earlier member
    | @custom name live' index' d found placed' =>
        obtain ⟨before, earlier, serial, -, conditions⟩ := stems name live' found
        rw [serial] at different ⊢
        rw [conditions] at placed'
        split at placed'
        · rename_i here
          subst here
          rw [lives] at earlier
          cases earlier
          rw [List.getElem?_set_ne fun equal => different (by rw [equal])] at placed'
          exact .custom lives placed'
        · exact .custom earlier placed'
  · intro d gate bears
    generalize owned : Owner.custom effect live.serial index = owner at bears
    cases bears with
    | @custom name live' index' d found placed' =>
        obtain ⟨rfl, -, rfl⟩ := Owner.custom.inj owned
        obtain ⟨before, earlier, -, -, conditions⟩ := stems effect live' found
        rw [lives] at earlier
        cases earlier
        obtain ⟨within, -⟩ := List.getElem?_eq_some_iff.1 placed
        rw [conditions, if_pos rfl, List.getElem?_set_self within] at placed'
        exact ⟨(Option.some.inj placed').symm, rfl⟩
    | modifier => cases owned
    | stack => cases owned

/-- An owner that has a tree gets another one, and its activity stays. -/
theorem Tidy.revises_setCondition (tidy : e.Tidy) {owner : Owner} {c : Condition π}
    {gate : Option Gate} (bears : e.Bears owner c gate) (c' : Condition π) :
    e.Revises (e.setCondition owner c') owner c' gate := by
  cases bears with
  | modifier member => exact tidy.revises_modify (tidy.find?_of_mem member) rfl
  | @stack effect live s lives member =>
      have found : e.stack? effect s.id = some s := by
        rw [Entity.stack?, lives, Option.bind_some]
        exact (tidy.effects effect live lives).stack?_of_held member
      exact tidy.revises_modifyStack found rfl
  | custom lives placed => exact revises_modifyInstance lives placed c'

theorem Tidy.bears_setCondition (tidy : e.Tidy) {owner : Owner} {c : Condition π}
    {gate : Option Gate} (bears : e.Bears owner c gate) (c' : Condition π) :
    (e.setCondition owner c').Bears owner c' gate := by
  cases bears with
  | @modifier stat m member =>
      have changed : (e.modifiers.modify stat m.id fun m => { m with duration := c' }).find? stat
          m.id = some { m with duration := c' } := by
        rw [ModifierLists.find?_modify, tidy.find?_of_mem member, Option.map_some]
        exact fun _ same => same
      exact .modifier (e := e.setCondition (.modifier stat m.id) c')
        (m := { m with duration := c' }) (List.mem_of_find?_eq_some changed)
  | @stack effect live s lives member =>
      have stack := (tidy.effects effect live lives).stack?_of_held member
      have changed : (live.modifyStack s.id fun s => { s with duration := c' }).stack? s.id =
          some { s with duration := c' } := by
        rw [LiveEffect.stack?, LiveEffect.modifyStack, find?_modifyFirst, ← LiveEffect.stack?, stack,
          Option.map_some]
        exact fun _ same => same
      have lives' : (e.setCondition (.stack effect s.id) c').effects.get? effect =
          some (live.modifyStack s.id fun s => { s with duration := c' }) :=
        get?_modifyEffect_self lives _
      exact .stack (s := { s with duration := c' }) lives' (List.mem_of_find?_eq_some changed)
  | @custom effect live index c lives placed =>
      obtain ⟨within, -⟩ := List.getElem?_eq_some_iff.1 placed
      let live' : LiveEffect π := { live with conditions := live.conditions.set index c' }
      have lives' : (e.setCondition (.custom effect live.serial index) c').effects.get? effect =
          some live' := by
        rw [Entity.setCondition, Entity.modifyInstance, get?_modifyEffect_self lives, if_pos rfl]
      change Bears _ (.custom effect live'.serial index) c' none
      exact .custom lives' (List.getElem?_set_self within)

/-! ### Trees that come -/

theorem watchers_foldl_subscribe {α : Type} (owner : α → Owner) (interests : α → Interests)
    (list : List α) (e : Entity π) {other : Owner} {stat : StatName} :
    other ∈ (list.foldl (fun e a => e.subscribe (owner a) (interests a)) e).watchers.get stat ↔
      other ∈ e.watchers.get stat ∨
        ∃ a ∈ list, other = owner a ∧ (interests a).stats.contains stat = true := by
  induction list generalizing e with
  | nil => simp
  | cons a rest ih =>
      rw [List.foldl_cons, ih, watchers_subscribe]
      simp only [List.mem_cons, or_and_right, exists_or, exists_eq_left, or_assoc]

section

variable [CustomTrigger π]

theorem bears_addModifier (operators : OperatorTable) (m : Modifier π) {owner : Owner}
    {c : Condition π} {gate : Option Gate} (bears : (e.addModifier operators m).Bears owner c gate) :
    e.Kept (e.addModifier operators m) owner c gate ∨
      (owner = .modifier m.stat m.id ∧ c = m.duration ∧ gate = some ⟨m.active, m.isSourced⟩) := by
  have watches (stat : StatName) (watching : owner ∈ e.watchers.get stat) :
      owner ∈ (e.addModifier operators m).watchers.get stat :=
    watchers_subscribe.2 (.inl watching)
  cases bears with
  | @modifier stat x member =>
      change x ∈ (e.modifiers.insert operators m).get stat at member
      rw [ModifierLists.get_insert] at member
      split at member
      · rename_i here
        subst here
        rw [(ModifierLists.place_perm operators m _).mem_iff, List.mem_cons] at member
        rcases member with rfl | before
        · exact .inr ⟨rfl, rfl, rfl⟩
        · exact .inl ⟨.modifier before, watches⟩
      · exact .inl ⟨.modifier member, watches⟩
  | stack lives member => exact .inl ⟨.stack lives member, watches⟩
  | custom lives placed => exact .inl ⟨.custom lives placed, watches⟩

theorem watchers_addModifier (operators : OperatorTable) (m : Modifier π) {stat : StatName}
    (watches : m.duration.Watches stat) :
    .modifier m.stat m.id ∈ (e.addModifier operators m).watchers.get stat :=
  watchers_subscribe.2 (.inr ⟨rfl, Condition.interests_stats.2 watches⟩)

theorem bears_pushStack (effect : EffectName) (s : Stack π) {owner : Owner}
    {c : Condition π} {gate : Option Gate} (bears : (e.pushStack effect s).Bears owner c gate) :
    e.Kept (e.pushStack effect s) owner c gate ∨
      (owner = .stack effect s.id ∧ c = s.duration ∧ gate = some ⟨s.active, s.isSourced⟩) := by
  have watches (stat : StatName) (watching : owner ∈ e.watchers.get stat) :
      owner ∈ (e.pushStack effect s).watchers.get stat :=
    watchers_subscribe.2 (.inl watching)
  have stems {name : EffectName} {live' : LiveEffect π}
      (lives : (e.pushStack effect s).effects.get? name = some live') :
      ∃ live, e.effects.get? name = some live ∧ live'.serial = live.serial ∧
        live'.conditions = live.conditions ∧
        ∀ x ∈ live'.held, x ∈ live.held ∨ (name = effect ∧ x = s) := by
    change (e.modifyEffect effect _).effects.get? name = some live' at lives
    rw [get?_modifyEffect] at lives
    split at lives
    · rename_i here
      obtain ⟨live, there, rfl⟩ := Option.map_eq_some_iff.1 lives
      refine ⟨live, there, rfl, rfl, fun x member => ?_⟩
      rw [List.mem_append, List.mem_singleton] at member
      exact member.imp_right fun last => ⟨here, last⟩
    · exact ⟨live', lives, rfl, rfl, fun _ => .inl⟩
  cases bears with
  | modifier member => exact .inl ⟨.modifier member, watches⟩
  | stack lives member =>
      obtain ⟨live, there, -, -, origins⟩ := stems lives
      rcases origins _ member with before | ⟨rfl, rfl⟩
      · exact .inl ⟨.stack there before, watches⟩
      · exact .inr ⟨rfl, rfl, rfl⟩
  | @custom _ live' _ _ lives placed =>
      obtain ⟨live, there, serial, conditions, -⟩ := stems lives
      rw [serial] at watches ⊢
      rw [conditions] at placed
      exact .inl ⟨.custom there placed, watches⟩

theorem watchers_pushStack (effect : EffectName) (s : Stack π) {stat : StatName}
    (watches : s.duration.Watches stat) :
    .stack effect s.id ∈ (e.pushStack effect s).watchers.get stat :=
  watchers_subscribe.2 (.inr ⟨rfl, Condition.interests_stats.2 watches⟩)

theorem watchers_addEffect (live : LiveEffect π) (armed : List (Condition π)) {owner : Owner}
    {stat : StatName} : owner ∈ (e.addEffect live armed).watchers.get stat ↔
      owner ∈ e.watchers.get stat ∨ ∃ index c, armed[index]? = some c ∧
        owner = .custom live.effect live.serial index ∧ c.Watches stat := by
  refine (watchers_foldl_subscribe
    (fun entry : Condition π × Nat => .custom live.effect live.serial entry.2)
    (fun entry => entry.1.interests) armed.zipIdx _).trans (or_congr Iff.rfl ⟨?_, ?_⟩)
  · rintro ⟨⟨c, index⟩, member, rfl, watches⟩
    exact ⟨index, c, List.mem_zipIdx_iff_getElem?.1 member, rfl, Condition.interests_stats.1 watches⟩
  · rintro ⟨index, c, placed, rfl, watches⟩
    exact ⟨⟨c, index⟩, List.mem_zipIdx_iff_getElem?.2 placed, rfl,
      Condition.interests_stats.2 watches⟩

/-- An effect that becomes live with nothing in it brings the trees of its custom effects. -/
theorem bears_addEffect {live : LiveEffect π} (held : live.held = []) (none : live.conditions = [])
    (armed : List (Condition π)) {owner : Owner} {c : Condition π} {gate : Option Gate}
    (bears : (e.addEffect live armed).Bears owner c gate) :
    e.Kept (e.addEffect live armed) owner c gate ∨
      ∃ index, owner = .custom live.effect live.serial index ∧ armed[index]? = some c ∧
        gate = Option.none := by
  have watches (stat : StatName) (watching : owner ∈ e.watchers.get stat) :
      owner ∈ (e.addEffect live armed).watchers.get stat :=
    (watchers_addEffect live armed).2 (.inl watching)
  have stems {name : EffectName} {live' : LiveEffect π}
      (lives : (e.addEffect live armed).effects.get? name = some live') :
      (name = live.effect ∧ live' = { live with conditions := armed }) ∨
        e.effects.get? name = some live' := by
    rw [addEffect_effects, Table.get?_insert, none, List.nil_append] at lives
    split at lives
    · rename_i here
      exact .inl ⟨here, (Option.some.inj lives).symm⟩
    · exact .inr lives
  obtain ⟨-, modifiers⟩ := addEffect_stats e live armed
  cases bears with
  | modifier member =>
      rw [modifiers] at member
      exact .inl ⟨.modifier member, watches⟩
  | stack lives member =>
      rcases stems lives with ⟨rfl, rfl⟩ | before
      · rw [held] at member
        cases member
      · exact .inl ⟨.stack before member, watches⟩
  | custom lives placed =>
      rcases stems lives with ⟨rfl, rfl⟩ | before
      · exact .inr ⟨_, rfl, placed, rfl⟩
      · exact .inl ⟨.custom before placed, watches⟩

end

end Entity

end StatusEffects
