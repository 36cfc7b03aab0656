import StatusEffects.Proofs.Admission

/-!
Who is subscribed to what.

Whoever is subscribed has a live condition tree. If no trigger of the game begins or ceases to depend on
an event while it is in use, an owner hears of time and of changes of a stat exactly if its tree has a
node that depends on them. Each move keeps this: it changes the trees of some owners and the
subscriptions of the same ones. Walks change neither, since owners that leave during a walk are no
longer counted.
-/

set_option autoImplicit false

namespace StatusEffects

variable {π : Type}

def Entity.Hears (e : Entity π) (owner : Owner) : Interest → Prop
  | .time => e.timers.contains owner = true
  | .stat name => owner ∈ e.watchers.get name

def Modifier.tree (m : Modifier π) : Handle × Condition π := (m.id, m.duration)

def Stack.tree (s : Stack π) : Handle × Condition π := (s.id, s.duration)

def LiveEffect.trees (live : LiveEffect π) :
    Handle × List (Handle × Condition π) × List (Condition π) :=
  (live.serial, live.held.map Stack.tree, live.conditions)

namespace Entity

variable {e e' e₁ : Entity π} {owner other : Owner} {i : Interest}

/-! ### Subscribing -/

theorem hears_subscribe {interests : Interests} :
    (e.subscribe owner interests).Hears other i ↔
      e.Hears other i ∨ (other = owner ∧ interests.Has i) := by
  cases i with
  | time =>
      unfold Hears Entity.subscribe Interests.Has
      dsimp only
      split
      · rename_i timer
        rw [Timers.contains_insert]
        simp [timer]
      · rename_i still
        simp [still]
  | stat name => exact watchers_subscribe

theorem hears_unsubscribe :
    (e.unsubscribe owner).Hears other i ↔ e.Hears other i ∧ other ≠ owner := by
  cases i with
  | time => exact Timers.contains_remove
  | stat name => exact Watchers.mem_get_remove

/-- Owners end their subscriptions one after the other. -/
theorem hears_foldl_unsubscribe {α : Type} (step : Entity π → α → Entity π) {left : α → Owner}
    (leaves : ∀ e a, (step e a).timers = (e.unsubscribe (left a)).timers ∧
      (step e a).watchers = (e.unsubscribe (left a)).watchers) (list : List α) (e : Entity π) :
    (list.foldl step e).Hears other i ↔ e.Hears other i ∧ ∀ a ∈ list, other ≠ left a := by
  induction list generalizing e with
  | nil => simp
  | cons a rest ih =>
      have first : (step e a).Hears other i ↔ e.Hears other i ∧ other ≠ left a := by
        rw [← hears_unsubscribe]
        obtain ⟨timers, watchers⟩ := leaves e a
        cases i with
        | time =>
            unfold Hears
            rw [timers]
        | stat name =>
            unfold Hears
            rw [watchers]
      rw [List.foldl_cons, ih, first, List.forall_mem_cons, and_assoc]

theorem hears_dropEffect {effect : EffectName} {live : LiveEffect π} :
    (e.dropEffect effect live).Hears other i ↔
      (e.Hears other i ∧ ∀ s ∈ live.held, other ≠ .stack effect s.id) ∧
        ∀ index ∈ List.range live.conditions.length, other ≠ .custom effect live.serial index := by
  let erased : Entity π := { e with effects := e.effects.erase effect }
  let bare := live.held.foldl (fun e s => e.unsubscribe (.stack effect s.id)) erased
  have unheld : bare.Hears other i ↔ _ := hears_foldl_unsubscribe
    (fun e (s : Stack π) => e.unsubscribe (.stack effect s.id)) (fun _ _ => ⟨rfl, rfl⟩) live.held
    erased
  have customs : (Entity.Hears _ other i) ↔ _ := hears_foldl_unsubscribe
    (fun e index => e.unsubscribe (.custom effect live.serial index)) (fun _ _ => ⟨rfl, rfl⟩)
    (List.range live.conditions.length) bare
  rw [unheld] at customs
  cases i with
  | time => exact customs
  | stat name => exact customs

/-- The timers and watchers come about by subscribing owners and ending the subscriptions of some. -/
inductive Books (e : Entity π) (gone : Owner → Prop) : Entity π → Prop where
  | refl : Books e gone e
  | aside {e₁ e₂ : Entity π} (before : Books e gone e₁) (timers : e₂.timers = e₁.timers)
      (watchers : e₂.watchers = e₁.watchers) : Books e gone e₂
  | subscribe {e₁ : Entity π} (before : Books e gone e₁) (owner : Owner) (interests : Interests) :
      Books e gone (e₁.subscribe owner interests)
  | unsubscribe {e₁ : Entity π} {owner : Owner} (before : Books e gone e₁) (left : gone owner) :
      Books e gone (e₁.unsubscribe owner)

variable {gone : Owner → Prop}

structure Booked (e : Entity π) : Prop where
  timers : e.timers.Tidy
  watchers : e.watchers.Tidy

theorem Books.booked (books : e.Books gone e') (booked : e.Booked) : e'.Booked := by
  induction books with
  | refl => exact booked
  | aside before timers watchers ih =>
      constructor
      · rw [timers]
        exact ih.timers
      · rw [watchers]
        exact ih.watchers
  | subscribe before owner interests ih =>
      constructor
      · unfold Entity.subscribe
        dsimp only
        split
        · exact ih.timers.insert owner
        · exact ih.timers
      · exact List.foldlRecOn (motive := Watchers.Tidy) _ _ ih.watchers
          fun _ tidy stat _ => tidy.insert stat owner
  | @unsubscribe _ owner before left ih => exact ⟨ih.timers.remove owner, ih.watchers.remove owner⟩

theorem Books.dropModifier? {stat : StatName} {id : Handle}
    (dropped : e.dropModifier? stat id = some e') :
    e.Books (fun owner => owner = .modifier stat id) e' := by
  obtain ⟨⟨m, modifiers⟩, -, rfl⟩ := Option.map_eq_some_iff.1 dropped
  have taken : e.Books (fun owner => owner = .modifier stat id)
      { e with modifiers := modifiers } := Books.refl.aside rfl rfl
  exact (taken.unsubscribe rfl).aside rfl rfl

theorem Books.dropModifiersOf (e : Entity π) (source : SourceTag) :
    e.Books
      (fun owner => ∃ m ∈ e.modifiers.ofSource (some source), owner = .modifier m.stat m.id)
      (e.dropModifiersOf source) :=
  List.foldlRecOn (motive := fun e' : Entity π => e.Books _ e') _ _ (Books.refl.aside rfl rfl)
    fun _ before m member => (before.unsubscribe ⟨m, member, rfl⟩).aside rfl rfl

theorem Books.detachStack? {effect : EffectName} {id : Handle}
    (detached : e.detachStack? effect id = some e') :
    e.Books (fun owner => owner = .stack effect id) e' := by
  obtain ⟨live, s, -, -, rfl⟩ := detachStack?_eq_some detached
  let rest := { live with held := live.held.eraseP fun s => s.id = id }
  have taken : e.Books (fun owner => owner = .stack effect id)
      { e with effects := e.effects.insert effect rest } := Books.refl.aside rfl rfl
  exact (taken.unsubscribe rfl).aside rfl rfl

theorem Books.dropEffect (e : Entity π) (effect : EffectName) (live : LiveEffect π) :
    e.Books
      (fun owner => (∃ s ∈ live.held, owner = .stack effect s.id) ∨
        ∃ index ∈ List.range live.conditions.length, owner = .custom effect live.serial index)
      (e.dropEffect effect live) := by
  let gone (owner : Owner) : Prop := (∃ s ∈ live.held, owner = .stack effect s.id) ∨
    ∃ index ∈ List.range live.conditions.length, owner = .custom effect live.serial index
  have erased : e.Books gone { e with effects := e.effects.erase effect } :=
    Books.refl.aside rfl rfl
  have unheld := List.foldlRecOn (motive := fun e' : Entity π => e.Books gone e') live.held
    (fun e s => e.unsubscribe (.stack effect s.id)) erased
    fun _ before s member => before.unsubscribe (.inl ⟨s, member, rfl⟩)
  have customs := List.foldlRecOn (motive := fun e' : Entity π => e.Books gone e')
    (List.range live.conditions.length)
    (fun e index => e.unsubscribe (.custom effect live.serial index)) unheld
    fun _ before index member => before.unsubscribe (.inr ⟨index, member, rfl⟩)
  exact customs.aside rfl rfl

theorem Books.addModifier [CustomTrigger π] (e : Entity π) (operators : OperatorTable)
    (m : Modifier π) : e.Books gone (e.takeHandle.2.addModifier operators m) := by
  have listed : e.Books gone
      { e.takeHandle.2 with modifiers := e.takeHandle.2.modifiers.insert operators m } :=
    Books.refl.aside rfl rfl
  exact listed.subscribe _ _

theorem Books.pushStack [CustomTrigger π] (e : Entity π) (effect : EffectName) (s : Stack π) :
    e.Books gone (e.takeHandle.2.pushStack effect s) := by
  have held : e.Books gone
      (e.takeHandle.2.modifyEffect effect fun live => { live with held := live.held ++ [s] }) :=
    Books.refl.aside rfl rfl
  exact held.subscribe _ _

theorem Books.addEffect [CustomTrigger π] (e : Entity π) (effect : EffectName)
    (armed : List (Condition π)) :
    e.Books gone (e.acquireEffect.2.addEffect { e.acquireEffect.1 with effect := effect } armed) :=
  List.foldlRecOn (motive := fun e' : Entity π => e.Books gone e') armed.zipIdx _
    (Books.refl.aside rfl rfl) fun _ before _ _ => before.subscribe _ _

/-! ### The trees of owners -/

/-- The tree of a handle in a list does not depend on anything else in it. -/
theorem tree_congr {α β : Type} {list : List α} {list' : List β} {key : α → Handle}
    {tree : α → Condition π} {key' : β → Handle} {tree' : β → Condition π}
    (same : list'.map (fun x => (key' x, tree' x)) = list.map fun x => (key x, tree x))
    (id : Handle) :
    (list'.find? fun x => key' x = id).map tree' = (list.find? fun x => key x = id).map tree := by
  have pick {γ : Type} (list : List γ) (key : γ → Handle) (tree : γ → Condition π) :
      (list.find? fun x => key x = id).map tree =
        ((list.map fun x => (key x, tree x)).find? fun entry => entry.1 = id).map Prod.snd := by
    rw [List.find?_map, Option.map_map]
    rfl
  refine (pick list' key' tree').trans ?_
  rw [same]
  exact (pick list key tree).symm

theorem lives_of_trees {effect : EffectName}
    (same : (e'.effects.get? effect).map LiveEffect.trees =
      (e.effects.get? effect).map LiveEffect.trees) :
    (e'.effects.get? effect = none ∧ e.effects.get? effect = none) ∨
      ∃ live' live, e'.effects.get? effect = some live' ∧ e.effects.get? effect = some live ∧
        live'.trees = live.trees := by
  cases there : e.effects.get? effect with
  | none =>
      rw [there, Option.map_none, Option.map_eq_none_iff] at same
      exact .inl ⟨same, rfl⟩
  | some live =>
      rw [there, Option.map_some, Option.map_eq_some_iff] at same
      obtain ⟨live', there', trees⟩ := same
      exact .inr ⟨live', live, there', rfl, trees⟩

/-- Entities with the same trees under the same handles have the same tree for every owner. -/
theorem condition_congr
    (lists : ∀ stat, (e'.modifiers.get stat).map Modifier.tree =
      (e.modifiers.get stat).map Modifier.tree)
    (effects : ∀ name, (e'.effects.get? name).map LiveEffect.trees =
      (e.effects.get? name).map LiveEffect.trees) (owner : Owner) :
    e'.condition owner = e.condition owner := by
  cases owner with
  | modifier stat id => exact congrArg (Option.getD · .absent) (tree_congr (lists stat) id)
  | stack effect id =>
      unfold Entity.condition Entity.stack?
      dsimp only
      rcases lives_of_trees (effects effect) with ⟨gone', gone⟩ | ⟨live', live, there', there, trees⟩
      · rw [gone', gone]
      · rw [there', there, Option.bind_some, Option.bind_some]
        exact congrArg (Option.getD · .absent) (tree_congr (congrArg (fun t => t.2.1) trees) id)
  | custom effect serial index =>
      unfold Entity.condition
      dsimp only
      rcases lives_of_trees (effects effect) with ⟨gone', gone⟩ | ⟨live', live, there', there, trees⟩
      · rw [gone', gone]
      · have serial : live'.serial = live.serial := congrArg Prod.fst trees
        have conditions : live'.conditions = live.conditions := congrArg (fun t => t.2.2) trees
        rw [there', there]
        dsimp only
        rw [serial, LiveEffect.condition, LiveEffect.condition, conditions]

theorem condition_of_same (modifiers : e'.modifiers = e.modifiers) (effects : e'.effects = e.effects)
    (owner : Owner) : e'.condition owner = e.condition owner :=
  condition_congr (fun _ => by rw [modifiers]) (fun _ => by rw [effects]) owner

/-- Live effects may change in what does not concern trees. -/
theorem condition_modifyEffect {effect : EffectName} {change : LiveEffect π → LiveEffect π}
    (same : ∀ live, e.effects.get? effect = some live → (change live).trees = live.trees)
    (owner : Owner) : (e.modifyEffect effect change).condition owner = e.condition owner := by
  have effects (name : EffectName) :
      ((e.modifyEffect effect change).effects.get? name).map LiveEffect.trees =
        (e.effects.get? name).map LiveEffect.trees := by
    rw [get?_modifyEffect]
    split
    · rename_i here
      subst here
      cases there : e.effects.get? name with
      | none => rfl
      | some live => exact congrArg some (same live there)
    · rfl
  refine condition_congr (fun _ => ?_) effects owner
  rfl

theorem condition_updateModifier {stat : StatName} {id : Handle} {m m' : Modifier π}
    (found : e.modifiers.find? stat id = some m) (same : m'.tree = m.tree) (owner : Owner) :
    (e.updateModifier stat id m').condition owner = e.condition owner := by
  have lists (other : StatName) :
      ((e.updateModifier stat id m').modifiers.get other).map Modifier.tree =
        (e.modifiers.get other).map Modifier.tree := by
    change ((e.modifiers.modify stat id fun _ => m').get other).map Modifier.tree = _
    rw [ModifierLists.get_modify]
    split
    · rename_i here
      subst here
      exact map_modifyFirst_of_found found same
    · rfl
  refine condition_congr lists (fun _ => ?_) owner
  rfl

theorem condition_updateStack {effect : EffectName} {id : Handle} {s s' : Stack π}
    (found : e.stack? effect id = some s) (same : s'.tree = s.tree) (owner : Owner) :
    (e.updateStack effect id s').condition owner = e.condition owner := by
  refine condition_modifyEffect (fun live there => ?_) owner
  rw [Entity.stack?, there, Option.bind_some] at found
  unfold LiveEffect.trees LiveEffect.modifyStack
  rw [map_modifyFirst_of_found found same]

/-- Stacks that were drawn down keep their trees. -/
theorem trees_drawn {after before : List (Stack π)} (drawn : List.Forall₂ Stack.Drawn after before) :
    after.map Stack.tree = before.map Stack.tree := by
  induction drawn with
  | nil => rfl
  | cons first _ ih =>
      rw [List.map_cons, List.map_cons, ih, first.1]
      rfl

theorem condition_setStacks {effect : EffectName} {live : LiveEffect π} {held : List (Stack π)}
    (found : e.effects.get? effect = some live) (drawn : List.Forall₂ Stack.Drawn held live.held)
    (owner : Owner) : (e.setStacks effect held).condition owner = e.condition owner := by
  refine condition_modifyEffect (fun live' there => ?_) owner
  rw [found] at there
  rw [← Option.some.inj there, LiveEffect.trees, LiveEffect.trees, trees_drawn drawn]

theorem condition_storeCount (effect : EffectName) (count : UInt32) (active : Bool)
    (owner : Owner) : (e.storeCount effect count active).condition owner = e.condition owner := by
  refine condition_modifyEffect (fun live _ => ?_) owner
  rfl

/-- Nothing but trees is different when a tree is put in its place. -/
theorem setCondition_rest (e : Entity π) (owner : Owner) (c : Condition π) :
    (e.setCondition owner c).timers = e.timers ∧ (e.setCondition owner c).watchers = e.watchers ∧
      (e.setCondition owner c).nextHandle = e.nextHandle := by
  cases owner <;> exact ⟨rfl, rfl, rfl⟩

/-- Who bears the same trees has the same one. -/
theorem condition_of_bears_iff (tidy : e.Tidy) (tidy' : e'.Tidy)
    (same : ∀ c gate, e'.Bears owner c gate ↔ e.Bears owner c gate) :
    e'.condition owner = e.condition owner := by
  by_cases there : e'.condition owner = .absent
  · rw [there]
    by_contra there'
    obtain ⟨gate, bears⟩ := bears_of_present (Ne.symm there')
    exact there' (there.symm.trans (tidy'.condition_of_bears ((same _ gate).2 bears)))
  · obtain ⟨gate, bears⟩ := bears_of_present there
    exact (tidy.condition_of_bears ((same _ gate).1 bears)).symm

section

variable {c d : Condition π} {gate : Option Gate}

theorem bears_modify_of_ne {stat : StatName} {id : Handle} {change : Modifier π → Modifier π}
    (bears : e.Bears other d gate) (different : other ≠ .modifier stat id) :
    Bears { e with modifiers := e.modifiers.modify stat id change } other d gate := by
  cases bears with
  | @modifier stat' m member =>
      have member' : m ∈ (e.modifiers.modify stat id change).get stat' := by
        rw [ModifierLists.get_modify]
        split
        · rename_i here
          exact mem_modifyFirst_of_ne member fun same => different (by rw [here, same])
        · exact member
      exact .modifier member'
  | stack lives member => exact .stack lives member
  | custom lives placed => exact .custom lives placed

theorem bears_modifyStack_of_ne {effect : EffectName} {id : Handle} {change : Stack π → Stack π}
    (bears : e.Bears other d gate) (different : other ≠ .stack effect id) :
    (e.modifyEffect effect fun live => live.modifyStack id change).Bears other d gate := by
  have lives' (name : EffectName) :=
    get?_modifyEffect e effect name fun live => live.modifyStack id change
  cases bears with
  | modifier member => exact .modifier member
  | @stack name live s lives member =>
      specialize lives' name
      by_cases here : name = effect
      · rw [if_pos here, lives, Option.map_some] at lives'
        refine .stack lives' (mem_modifyFirst_of_ne member fun same => different ?_)
        rw [here, same]
      · rw [if_neg here, lives] at lives'
        exact .stack lives' member
  | @custom name live index d lives placed =>
      specialize lives' name
      by_cases here : name = effect
      · rw [if_pos here, lives, Option.map_some] at lives'
        have borne := Bears.custom lives' placed
        exact borne
      · rw [if_neg here, lives] at lives'
        exact .custom lives' placed

theorem bears_modifyInstance_of_ne {effect : EffectName} {serial : Handle} {index : Nat}
    (bears : e.Bears other d gate) (different : other ≠ .custom effect serial index) :
    (e.modifyInstance effect serial fun live =>
      { live with conditions := live.conditions.set index c }).Bears other d gate := by
  have lives' (name : EffectName) := get?_modifyEffect e effect name fun live =>
    if live.serial = serial then { live with conditions := live.conditions.set index c }
    else live
  cases bears with
  | modifier member => exact .modifier member
  | @stack name live s lives member =>
      specialize lives' name
      rw [lives, Option.map_some] at lives'
      split at lives'
      · split at lives'
        · exact .stack lives' member
        · exact .stack lives' member
      · exact .stack lives' member
  | @custom name live index' d lives placed =>
      specialize lives' name
      rw [lives, Option.map_some] at lives'
      split at lives'
      · rename_i here
        split at lives'
        · rename_i same
          have kept : (live.conditions.set index c)[index']? = some d := by
            rw [List.getElem?_set_ne fun equal => different (by rw [here, same, equal])]
            exact placed
          have borne := Bears.custom lives' kept
          exact borne
        · exact .custom lives' placed
      · exact .custom lives' placed

theorem bears_setCondition_of_ne (bears : e.Bears other d gate) (different : other ≠ owner) :
    (e.setCondition owner c).Bears other d gate := by
  cases owner with
  | modifier stat id => exact bears_modify_of_ne bears different
  | stack effect id => exact bears_modifyStack_of_ne bears different
  | custom effect serial index => exact bears_modifyInstance_of_ne bears different

end

/-- An owner that has a tree gets another one. -/
theorem Tidy.condition_setCondition (tidy : e.Tidy) (there : e.condition owner ≠ .absent)
    (c : Condition π) (other : Owner) :
    (e.setCondition owner c).condition other = if other = owner then c else e.condition other := by
  obtain ⟨gate, bears⟩ := bears_of_present there
  split
  · rename_i same
    rw [same]
    exact (tidy.setCondition owner c).condition_of_bears (tidy.bears_setCondition bears c)
  · rename_i different
    refine condition_of_bears_iff tidy (tidy.setCondition owner c) fun d gate' => ⟨?_, ?_⟩
    · intro bears'
      exact ((tidy.revises_setCondition bears c).others other d gate' bears' different).1
    · exact fun bears' => bears_setCondition_of_ne bears' different

theorem Tidy.condition_dropModifier? (tidy : e.Tidy) {stat : StatName} {id : Handle}
    (dropped : e.dropModifier? stat id = some e') (other : Owner) :
    e'.condition other = if other = .modifier stat id then .absent else e.condition other := by
  split
  · rename_i gone
    rw [gone]
    exact condition_eq_absent (tidy.gone_dropModifier? dropped)
  · rename_i different
    refine condition_of_bears_iff tidy (tidy.dropModifier? dropped) fun c gate => ⟨?_, ?_⟩
    · exact fun bears => (tidy.sheds_dropModifier? dropped other c gate bears).1
    · intro bears
      obtain ⟨⟨m, modifiers⟩, removed, rfl⟩ := Option.map_eq_some_iff.1 dropped
      cases bears with
      | @modifier stat' m' member =>
          apply Bears.modifier
          change m' ∈ modifiers.get stat'
          rw [ModifierLists.get_remove? removed]
          split
          · rename_i here
            subst here
            refine (List.mem_eraseP_of_neg fun same => different ?_).2 member
            rw [of_decide_eq_true same]
          · exact member
      | stack lives member => exact .stack lives member
      | custom lives placed => exact .custom lives placed

theorem Tidy.condition_dropModifiersOf (tidy : e.Tidy) (source : SourceTag) (other : Owner) :
    (e.dropModifiersOf source).condition other =
      if ∃ m ∈ e.modifiers.ofSource (some source), other = .modifier m.stat m.id then .absent
      else e.condition other := by
  split
  · rename_i gone
    obtain ⟨m, member, rfl⟩ := gone
    exact condition_eq_absent (tidy.gone_dropModifiersOf member)
  · rename_i stays
    refine condition_of_bears_iff tidy (tidy.dropModifiersOf source) fun c gate => ⟨?_, ?_⟩
    · exact fun bears => (tidy.sheds_dropModifiersOf source other c gate bears).1
    · intro bears
      have effects := dropModifiersOf_effects e source
      cases bears with
      | @modifier stat m member =>
          refine .modifier (mem_dropModifiersOf.2 ⟨member, fun sourced => stays ⟨m, ?_, ?_⟩⟩)
          · exact ModifierLists.mem_ofSource.2 ⟨⟨stat, member⟩, sourced⟩
          · rw [tidy.filed stat m member]
      | stack lives member =>
          rw [← effects] at lives
          exact .stack lives member
      | custom lives placed =>
          rw [← effects] at lives
          exact .custom lives placed

theorem Tidy.condition_detachStack? (tidy : e.Tidy) {effect : EffectName} {id : Handle}
    (detached : e.detachStack? effect id = some e') (other : Owner) :
    e'.condition other = if other = .stack effect id then .absent else e.condition other := by
  split
  · rename_i gone
    rw [gone]
    exact condition_eq_absent (tidy.gone_detachStack? detached)
  · rename_i different
    have changed := tidy.effects_detachStack? detached
    refine condition_of_bears_iff tidy (tidy.detachStack? detached) fun c gate => ⟨?_, ?_⟩
    · exact fun bears => (tidy.sheds_detachStack? detached other c gate bears).1
    · intro bears
      obtain ⟨live, s, there, stack, rfl⟩ := detachStack?_eq_some detached
      cases bears with
      | modifier member => exact .modifier member
      | @stack name live' s' lives member =>
          by_cases here : name = effect
          · subst here
            rw [lives] at there
            cases there
            refine .stack (Table.get?_insert_self ..) ?_
            refine (List.mem_eraseP_of_neg fun same => different ?_).2 member
            rw [of_decide_eq_true same]
          · exact .stack ((Table.get?_insert_of_ne _ _ here).trans lives) member
      | @custom name live' index c lives placed =>
          by_cases here : name = effect
          · subst here
            rw [lives] at there
            cases there
            let reduced := { live with held := live.held.eraseP fun s => s.id = id }
            exact @Bears.custom _ _ _ reduced _ _ (Table.get?_insert_self ..) placed
          · exact .custom ((Table.get?_insert_of_ne _ _ here).trans lives) placed

theorem Tidy.condition_dropEffect (tidy : e.Tidy) {effect : EffectName} {live : LiveEffect π}
    (found : e.effects.get? effect = some live) (other : Owner) :
    (e.dropEffect effect live).condition other =
      if (∃ s ∈ live.held, other = .stack effect s.id) ∨
          ∃ index ∈ List.range live.conditions.length, other = .custom effect live.serial index
      then .absent else e.condition other := by
  obtain ⟨-, modifiers⟩ := dropEffect_stats e effect live
  have erased (name : EffectName) : (e.dropEffect effect live).effects.get? name =
      if name = effect then none else e.effects.get? name := by
    rw [dropEffect_effects, Table.get?_erase]
  split
  · rename_i gone
    refine condition_eq_absent fun c gate bears => ?_
    cases bears with
    | modifier member =>
        rcases gone with ⟨_, _, same⟩ | ⟨_, _, same⟩
        · cases same
        · cases same
    | @stack name live' s lives member =>
        rw [erased] at lives
        rcases gone with ⟨_, _, same⟩ | ⟨_, _, same⟩
        · rw [if_pos (Owner.stack.inj same).1] at lives
          cases lives
        · cases same
    | @custom name live' index c lives placed =>
        rw [erased] at lives
        rcases gone with ⟨_, _, same⟩ | ⟨_, _, same⟩
        · cases same
        · rw [if_pos (Owner.custom.inj same).1] at lives
          cases lives
  · rename_i stays
    refine condition_of_bears_iff tidy (tidy.dropEffect effect live) fun c gate => ⟨?_, ?_⟩
    · exact fun bears => (sheds_dropEffect e effect live other c gate bears).1
    · intro bears
      cases bears with
      | modifier member =>
          rw [← modifiers] at member
          exact .modifier member
      | @stack name live' s lives member =>
          by_cases here : name = effect
          · subst here
            rw [found] at lives
            cases lives
            exact absurd (.inl ⟨s, member, rfl⟩) stays
          · rw [← (erased name).trans (if_neg here)] at lives
            exact .stack lives member
      | @custom name live' index c lives placed =>
          by_cases here : name = effect
          · subst here
            rw [found] at lives
            cases lives
            obtain ⟨within, -⟩ := List.getElem?_eq_some_iff.1 placed
            exact absurd (.inr ⟨index, List.mem_range.2 within, rfl⟩) stays
          · rw [← (erased name).trans (if_neg here)] at lives
            exact .custom lives placed

variable [CustomTrigger π]

theorem Tidy.condition_addModifier (tidy : e.Tidy) (operators : OperatorTable) {m : Modifier π}
    (new : m.id = e.nextHandle) (other : Owner) :
    (e.takeHandle.2.addModifier operators m).condition other =
      if other = .modifier m.stat m.id then m.duration else e.condition other := by
  have tidy' := tidy.addNewModifier operators new
  have lists (stat : StatName) : (e.takeHandle.2.addModifier operators m).modifiers.get stat =
      if stat = m.stat then ModifierLists.place operators m (e.modifiers.get stat)
      else e.modifiers.get stat :=
    ModifierLists.get_insert ..
  have there : m ∈ (e.takeHandle.2.addModifier operators m).modifiers.get m.stat := by
    rw [lists, if_pos rfl, (ModifierLists.place_perm operators m _).mem_iff]
    exact List.mem_cons_self
  split
  · rename_i same
    rw [same]
    exact tidy'.condition_of_bears (.modifier there)
  · rename_i different
    refine condition_of_bears_iff tidy tidy' fun c gate => ⟨?_, ?_⟩
    · intro bears
      rcases bears_addModifier operators m bears with before | ⟨same, -, -⟩
      · exact before.1.of_same rfl rfl
      · exact absurd same different
    · intro bears
      cases bears with
      | @modifier stat m' member =>
          apply Bears.modifier
          rw [lists]
          split
          · rw [(ModifierLists.place_perm operators m _).mem_iff]
            exact List.mem_cons_of_mem _ member
          · exact member
      | stack lives member => exact .stack lives member
      | custom lives placed => exact .custom lives placed

theorem Tidy.condition_pushStack (tidy : e.Tidy) {effect : EffectName} {s : Stack π}
    (live : e.effects.contains effect = true) (new : s.id = e.nextHandle) (other : Owner) :
    (e.takeHandle.2.pushStack effect s).condition other =
      if other = .stack effect s.id then s.duration else e.condition other := by
  have tidy' : (e.takeHandle.2.pushStack effect s).Tidy :=
    tidy.takeHandle.pushStack (by rw [new]; exact tidy.spare)
  have lives' (name : EffectName) := get?_modifyEffect e.takeHandle.2 effect name fun live =>
    { live with held := live.held ++ [s] }
  obtain ⟨live, lives⟩ := Option.isSome_iff_exists.1 live
  split
  · rename_i same
    rw [same]
    have there := lives' effect
    rw [if_pos rfl] at there
    exact tidy'.condition_of_bears
      (.stack (there.trans (congrArg _ lives)) (List.mem_append_right _ List.mem_cons_self))
  · rename_i different
    refine condition_of_bears_iff tidy tidy' fun c gate => ⟨?_, ?_⟩
    · intro bears
      rcases bears_pushStack effect s bears with before | ⟨same, -, -⟩
      · exact before.1.of_same rfl rfl
      · exact absurd same different
    · intro bears
      cases bears with
      | modifier member => exact .modifier member
      | @stack name live' s' there member =>
          by_cases here : name = effect
          · have there' := (lives' name).trans (if_pos here)
            exact .stack (there'.trans (congrArg _ there)) (List.mem_append_left _ member)
          · exact .stack (((lives' name).trans (if_neg here)).trans there) member
      | @custom name live' index c there placed =>
          by_cases here : name = effect
          · have there' := (lives' name).trans (if_pos here)
            let grown := { live' with held := live'.held ++ [s] }
            exact @Bears.custom _ _ _ grown _ _ (there'.trans (congrArg _ there)) placed
          · exact .custom (((lives' name).trans (if_neg here)).trans there) placed

/-- An effect that becomes live brings the trees of its custom effects and no other ones. -/
theorem Tidy.condition_addEffect (tidy : e.Tidy) {effect : EffectName}
    (absent : e.effects.contains effect = false) (armed : List (Condition π)) :
    (∀ index, (e.acquireEffect.2.addEffect { e.acquireEffect.1 with effect := effect }
        armed).condition (.custom effect e.nextHandle index) = armed.getD index .absent) ∧
      ∀ other, (∀ index, other ≠ .custom effect e.nextHandle index) →
        (e.acquireEffect.2.addEffect { e.acquireEffect.1 with effect := effect }
          armed).condition other = e.condition other := by
  have unlive : e.effects.get? effect = none := by
    rwa [Table.contains, Option.isSome_eq_false_iff, Option.isNone_iff_eq_none] at absent
  have blank := tidy.acquireEffect_fst
  have live' : ({ e.acquireEffect.1 with
      effect := effect
      conditions := e.acquireEffect.1.conditions ++ armed } : LiveEffect π) =
      ⟨effect, e.nextHandle, [], armed, 0, false⟩ := by
    rw [blank]
    rfl
  have lives (name : EffectName) : (e.acquireEffect.2.addEffect
      { e.acquireEffect.1 with effect := effect } armed).effects.get? name =
        if name = effect then some ⟨effect, e.nextHandle, [], armed, 0, false⟩
        else e.effects.get? name := by
    rw [addEffect_effects, Table.get?_insert, live']
    rfl
  obtain ⟨-, modifiers⟩ := addEffect_stats e.acquireEffect.2
    { e.acquireEffect.1 with effect := effect } armed
  refine ⟨fun index => ?_, fun other elsewhere => ?_⟩
  · rw [Entity.condition, lives, if_pos rfl]
    exact if_pos rfl
  · cases other with
    | modifier stat id =>
        rw [Entity.condition, modifiers]
        rfl
    | stack name id =>
        rw [Entity.condition, Entity.stack?, lives]
        split
        · rename_i here
          rw [Entity.condition, Entity.stack?, here, unlive]
          rfl
        · rfl
    | custom name serial index =>
        rw [Entity.condition, lives, Entity.condition]
        by_cases here : name = effect
        · rw [if_pos here, here, unlive]
          refine if_neg fun same => elsewhere index ?_
          rw [here, ← same]
        · rw [if_neg here]

/-! ### Subscriptions that fit the trees -/

/-- Who is subscribed has a tree, and is subscribed once. If the triggers of the game keep their
interests, every owner hears of exactly what its tree depends on. -/
structure Attended (e : Entity π) : Prop where
  tidy : e.Tidy
  booked : e.Booked
  borne : ∀ owner i, e.Hears owner i → e.condition owner ≠ .absent
  exact : ∀ owner i, i.Fixed π → (e.Hears owner i ↔ (e.condition owner).Wants i)

/-- The subscriptions stay, and so do the trees but for progress. -/
theorem Attended.progress (attended : e.Attended) (tidy : e'.Tidy) (timers : e'.timers = e.timers)
    (watchers : e'.watchers = e.watchers)
    (there : ∀ owner, e.condition owner ≠ .absent → e'.condition owner ≠ .absent)
    (wants : ∀ owner i, i.Fixed π → ((e'.condition owner).Wants i ↔ (e.condition owner).Wants i)) :
    e'.Attended := by
  have books : e.Books (fun _ => False) e' := Books.refl.aside timers watchers
  have hears (owner : Owner) (i : Interest) : e'.Hears owner i ↔ e.Hears owner i := by
    cases i with
    | time =>
        unfold Hears
        rw [timers]
    | stat name =>
        unfold Hears
        rw [watchers]
  refine ⟨tidy, books.booked attended.booked, fun owner i heard => ?_, fun owner i fixed => ?_⟩
  · exact there owner (attended.borne owner i ((hears owner i).1 heard))
  · rw [hears, wants owner i fixed]
    exact attended.exact owner i fixed

/-- Neither trees nor subscriptions change. -/
theorem Attended.same (attended : e.Attended) (tidy : e'.Tidy) (timers : e'.timers = e.timers)
    (watchers : e'.watchers = e.watchers)
    (trees : ∀ owner, e'.condition owner = e.condition owner) : e'.Attended := by
  refine attended.progress tidy timers watchers (fun owner => ?_) fun owner i _ => ?_
  · rw [trees]
    exact id
  · rw [trees]

/-- Some owners lose their trees and their subscriptions. -/
theorem Attended.lose (attended : e.Attended) (gone : Owner → Prop) (tidy : e'.Tidy)
    (books : e.Books gone e')
    (hears : ∀ owner i, e'.Hears owner i ↔ e.Hears owner i ∧ ¬gone owner)
    (left : ∀ owner, gone owner → e'.condition owner = .absent)
    (kept : ∀ owner, ¬gone owner → e'.condition owner = e.condition owner) : e'.Attended := by
  refine ⟨tidy, books.booked attended.booked, fun owner i heard => ?_, fun owner i fixed => ?_⟩
  · obtain ⟨before, stays⟩ := (hears owner i).1 heard
    rw [kept owner stays]
    exact attended.borne owner i before
  · rw [hears, attended.exact owner i fixed]
    by_cases leaves : gone owner
    · rw [left owner leaves]
      simp [leaves]
    · rw [kept owner leaves]
      simp [leaves]

/-- Some owners get trees that depend on no less than before, and are subscribed. -/
theorem Attended.gain (attended : e.Attended) (came : Owner → Prop) (tidy : e'.Tidy)
    (books : e.Books (fun _ => False) e')
    (hears : ∀ owner i, e'.Hears owner i ↔
      e.Hears owner i ∨ (came owner ∧ (e'.condition owner).Wants i))
    (there : ∀ owner, came owner → e.condition owner ≠ .absent → e'.condition owner ≠ .absent)
    (more : ∀ owner i, came owner → i.Fixed π → (e.condition owner).Wants i →
      (e'.condition owner).Wants i)
    (kept : ∀ owner, ¬came owner → e'.condition owner = e.condition owner) : e'.Attended := by
  refine ⟨tidy, books.booked attended.booked, fun owner i heard => ?_, fun owner i fixed => ?_⟩
  · rcases (hears owner i).1 heard with before | ⟨-, wants⟩
    · have borne := attended.borne owner i before
      by_cases comes : came owner
      · exact there owner comes borne
      · rw [kept owner comes]
        exact borne
    · intro absent
      rw [absent] at wants
      exact Condition.not_wants_absent i wants
  · rw [hears, attended.exact owner i fixed]
    by_cases comes : came owner
    · simp only [comes, true_and]
      exact ⟨fun either => either.elim (more owner i comes fixed) id, .inr⟩
    · rw [kept owner comes]
      simp [comes]

/-- Some owners that had no trees get some, and are subscribed. -/
theorem Attended.come (attended : e.Attended) (came : Owner → Prop) (tidy : e'.Tidy)
    (books : e.Books (fun _ => False) e')
    (hears : ∀ owner i, e'.Hears owner i ↔
      e.Hears owner i ∨ (came owner ∧ (e'.condition owner).Wants i))
    (unborne : ∀ owner, came owner → e.condition owner = .absent)
    (kept : ∀ owner, ¬came owner → e'.condition owner = e.condition owner) : e'.Attended := by
  refine attended.gain came tidy books hears (fun owner comes there => ?_)
    (fun owner i comes _ wants => ?_) kept
  · exact absurd (unborne owner comes) there
  · rw [unborne owner comes] at wants
    exact absurd wants (Condition.not_wants_absent i)

omit [CustomTrigger π] in
theorem hears_foldl_subscribe {α : Type} (owner : α → Owner) (interests : α → Interests)
    (list : List α) (e : Entity π) :
    (list.foldl (fun e a => e.subscribe (owner a) (interests a)) e).Hears other i ↔
      e.Hears other i ∨ ∃ a ∈ list, other = owner a ∧ (interests a).Has i := by
  induction list generalizing e with
  | nil => simp
  | cons a rest ih =>
      rw [List.foldl_cons, ih, hears_subscribe]
      simp only [List.mem_cons, or_and_right, exists_or, exists_eq_left, or_assoc]

theorem Attended.addModifier (attended : e.Attended) (operators : OperatorTable) {m : Modifier π}
    (new : m.id = e.nextHandle) : (e.takeHandle.2.addModifier operators m).Attended := by
  have trees := attended.tidy.condition_addModifier operators new
  refine attended.come (fun owner => owner = .modifier m.stat m.id)
    (attended.tidy.addNewModifier operators new) (.addModifier e operators m)
    (fun owner i => ?_) (fun owner came => condition_eq_absent fun c gate bears => ?_)
    fun owner stays => ?_
  · refine hears_subscribe.trans (or_congr Iff.rfl (and_congr_right fun same => ?_))
    rw [Condition.interests_has, trees, if_pos same]
  · rw [came] at bears
    generalize owned : Owner.modifier m.stat m.id = borne at bears
    cases bears with
    | @modifier stat m' member =>
        obtain ⟨-, ids⟩ := Owner.modifier.inj owned
        have given := attended.tidy.given stat m' member
        rw [← ids, new] at given
        exact Nat.lt_irrefl _ given
    | stack => cases owned
    | custom => cases owned
  · rw [trees, if_neg stays]

theorem Attended.pushStack (attended : e.Attended) {effect : EffectName} {s : Stack π}
    (live : e.effects.contains effect = true) (new : s.id = e.nextHandle) :
    (e.takeHandle.2.pushStack effect s).Attended := by
  have trees := attended.tidy.condition_pushStack live new
  refine attended.come (fun owner => owner = .stack effect s.id)
    (attended.tidy.takeHandle.pushStack (by rw [new]; exact attended.tidy.spare))
    (.pushStack e effect s) (fun owner i => ?_)
    (fun owner came => condition_eq_absent fun c gate bears => ?_) fun owner stays => ?_
  · refine hears_subscribe.trans (or_congr Iff.rfl (and_congr_right fun same => ?_))
    rw [Condition.interests_has, trees, if_pos same]
  · rw [came] at bears
    generalize owned : Owner.stack effect s.id = borne at bears
    cases bears with
    | @stack name live' s' lives member =>
        obtain ⟨-, ids⟩ := Owner.stack.inj owned
        have given := (attended.tidy.effects name live' lives).given s' member
        rw [← ids, new] at given
        exact Nat.lt_irrefl _ given
    | modifier => cases owned
    | custom => cases owned
  · rw [trees, if_neg stays]

theorem Attended.addEffect (attended : e.Attended) {effect : EffectName}
    (absent : e.effects.contains effect = false) (armed : List (Condition π)) :
    (e.acquireEffect.2.addEffect { e.acquireEffect.1 with effect := effect } armed).Attended := by
  obtain ⟨come, others⟩ := attended.tidy.condition_addEffect absent armed
  refine attended.come (fun owner => ∃ index, owner = .custom effect e.nextHandle index)
    (attended.tidy.addNewEffect effect armed) (.addEffect e effect armed) (fun owner i => ?_)
    (fun owner came => ?_) fun owner stays => ?_
  · refine (hears_foldl_subscribe
      (fun entry : Condition π × Nat => .custom effect e.nextHandle entry.2)
      (fun entry => entry.1.interests) armed.zipIdx _).trans (or_congr Iff.rfl ⟨?_, ?_⟩)
    · rintro ⟨⟨c, index⟩, member, rfl, has⟩
      refine ⟨⟨index, rfl⟩, ?_⟩
      rw [come, List.getD_eq_getElem?_getD, List.mem_zipIdx_iff_getElem?.1 member]
      exact Condition.interests_has.1 has
    · rintro ⟨⟨index, rfl⟩, wants⟩
      rw [come, List.getD_eq_getElem?_getD] at wants
      cases placed : armed[index]? with
      | none =>
          rw [placed] at wants
          exact absurd wants (Condition.not_wants_absent i)
      | some c =>
          rw [placed, Option.getD_some] at wants
          exact ⟨⟨c, index⟩, List.mem_zipIdx_iff_getElem?.2 placed, rfl,
            Condition.interests_has.2 wants⟩
  · obtain ⟨index, rfl⟩ := came
    rw [Table.contains, Option.isSome_eq_false_iff, Option.isNone_iff_eq_none] at absent
    rw [Entity.condition, absent]
  · exact others owner fun index same => stays ⟨index, same⟩

theorem Attended.dropModifier? (attended : e.Attended) {stat : StatName} {id : Handle}
    (dropped : e.dropModifier? stat id = some e') : e'.Attended := by
  have trees := attended.tidy.condition_dropModifier? dropped
  refine attended.lose (fun owner => owner = .modifier stat id)
    (attended.tidy.dropModifier? dropped) (.dropModifier? dropped) (fun owner i => ?_)
    (fun owner gone => (trees owner).trans (if_pos gone))
    fun owner stays => (trees owner).trans (if_neg stays)
  obtain ⟨⟨m, modifiers⟩, -, rfl⟩ := Option.map_eq_some_iff.1 dropped
  cases i with
  | time => exact hears_unsubscribe (i := .time)
  | stat name => exact hears_unsubscribe (i := .stat name)

theorem Attended.dropModifiersOf (attended : e.Attended) (source : SourceTag) :
    (e.dropModifiersOf source).Attended := by
  have trees := attended.tidy.condition_dropModifiersOf source
  refine attended.lose
    (fun owner => ∃ m ∈ e.modifiers.ofSource (some source), owner = .modifier m.stat m.id)
    (attended.tidy.dropModifiersOf source) (.dropModifiersOf e source) (fun owner i => ?_)
    (fun owner gone => (trees owner).trans (if_pos gone))
    fun owner stays => (trees owner).trans (if_neg stays)
  have retired : (Entity.Hears _ owner i) ↔ _ := hears_foldl_unsubscribe
    (fun e m => (e.unsubscribe (.modifier m.stat m.id)).releaseModifier m.detach)
    (fun _ _ => ⟨rfl, rfl⟩) (e.modifiers.ofSource (some source))
    { e with modifiers := (e.modifiers.removeSource source).2 }
  simp only [not_exists, not_and]
  cases i with
  | time => exact retired
  | stat name => exact retired

theorem Attended.detachStack? (attended : e.Attended) {effect : EffectName} {id : Handle}
    (detached : e.detachStack? effect id = some e') : e'.Attended := by
  have trees := attended.tidy.condition_detachStack? detached
  refine attended.lose (fun owner => owner = .stack effect id)
    (attended.tidy.detachStack? detached) (.detachStack? detached) (fun owner i => ?_)
    (fun owner gone => (trees owner).trans (if_pos gone))
    fun owner stays => (trees owner).trans (if_neg stays)
  obtain ⟨live, s, -, -, rfl⟩ := detachStack?_eq_some detached
  cases i with
  | time => exact hears_unsubscribe (i := .time)
  | stat name => exact hears_unsubscribe (i := .stat name)

theorem Attended.dropEffect (attended : e.Attended) {effect : EffectName} {live : LiveEffect π}
    (found : e.effects.get? effect = some live) : (e.dropEffect effect live).Attended := by
  have trees := attended.tidy.condition_dropEffect found
  refine attended.lose (fun owner => (∃ s ∈ live.held, owner = .stack effect s.id) ∨
      ∃ index ∈ List.range live.conditions.length, owner = .custom effect live.serial index)
    (attended.tidy.dropEffect effect live) (.dropEffect e effect live) (fun owner i => ?_)
    (fun owner gone => (trees owner).trans (if_pos gone))
    fun owner stays => (trees owner).trans (if_neg stays)
  rw [hears_dropEffect, and_assoc]
  simp only [not_or, not_exists, not_and, ne_eq]

theorem Attended.storeCount (attended : e.Attended) (effect : EffectName) (count : UInt32)
    (active : Bool) : (e.storeCount effect count active).Attended := by
  exact attended.same (attended.tidy.storeCount effect count active) rfl rfl
    (condition_storeCount effect count active)

/-- A tree takes the place of another one that depends on the same. -/
theorem Attended.setCondition (attended : e.Attended) {c : Condition π}
    (there : e.condition owner ≠ .absent) (present : c ≠ .absent)
    (same : ∀ i : Interest, i.Fixed π → (c.Wants i ↔ (e.condition owner).Wants i)) :
    (e.setCondition owner c).Attended := by
  obtain ⟨timers, watchers, -⟩ := setCondition_rest e owner c
  have trees := attended.tidy.condition_setCondition there c
  refine attended.progress (attended.tidy.setCondition owner c) timers watchers
    (fun other borne => ?_) fun other i fixed => ?_
  · rw [trees]
    split
    · exact present
    · exact borne
  · rw [trees]
    split
    · rename_i here
      rw [here]
      exact same i fixed
    · exact Iff.rfl

theorem Attended.mergeDuration (attended : e.Attended) {c : Condition π}
    (there : e.condition owner ≠ .absent) (present : c ≠ .absent)
    (more : ∀ i : Interest, i.Fixed π → (e.condition owner).Wants i → c.Wants i) :
    ((e.setCondition owner c).subscribe owner
      ((e.setCondition owner c).condition owner).interests).Attended := by
  have trees := attended.tidy.condition_setCondition there c
  obtain ⟨timers, watchers, -⟩ := setCondition_rest e owner c
  have still (other : Owner) (i : Interest) :
      (e.setCondition owner c).Hears other i ↔ e.Hears other i := by
    cases i with
    | time =>
        unfold Hears
        rw [timers]
    | stat name =>
        unfold Hears
        rw [watchers]
  have own : (e.setCondition owner c).condition owner = c := (trees owner).trans (if_pos rfl)
  have after (other : Owner) : ((e.setCondition owner c).subscribe owner c.interests).condition
      other = (e.setCondition owner c).condition other :=
    condition_of_same rfl rfl other
  rw [own]
  refine attended.gain (fun other => other = owner)
    ((attended.tidy.setCondition owner c).subscribe owner c.interests)
    ((Books.refl.aside timers watchers).subscribe owner c.interests) (fun other i => ?_)
    (fun other came _ => ?_) (fun other i came fixed wants => ?_) fun other stays => ?_
  · rw [hears_subscribe, still, Condition.interests_has]
    refine or_congr Iff.rfl (and_congr_right fun same => ?_)
    rw [after, same, own]
  · rw [after, came, own]
    exact present
  · rw [after, came, own]
    rw [came] at wants
    exact more i fixed wants
  · rw [after, trees, if_neg stays]

/-! ### What moves keep -/

variable {rules : Rulebook π} {stats : List StatName} {effects : List EffectName}

theorem Move.attended (move : e.Move rules stats effects e') (attended : e.Attended) :
    e'.Attended := by
  have unchanged {e' : Entity π} (tidy : e'.Tidy) (modifiers : e'.modifiers = e.modifiers)
      (effects : e'.effects = e.effects) (timers : e'.timers = e.timers)
      (watchers : e'.watchers = e.watchers) : e'.Attended :=
    attended.same tidy timers watchers (condition_of_same modifiers effects)
  have tidy := attended.tidy
  cases move with
  | store stat value => exact unchanged { tidy with } rfl rfl rfl rfl
  | modify modifying => exact unchanged { tidy with } rfl rfl rfl rfl
  | acquireModifier => exact unchanged tidy.acquireModifier rfl rfl rfl rfl
  | releaseModifier m => exact unchanged (tidy.releaseModifier m) rfl rfl rfl rfl
  | acquireStack => exact unchanged tidy.acquireStack rfl rfl rfl rfl
  | releaseStack s => exact unchanged (tidy.releaseStack s) rfl rfl rfl rfl
  | takeHandle => exact unchanged tidy.takeHandle rfl rfl rfl rfl
  | addModifier new => exact attended.addModifier rules.operators new
  | @updateModifier stat id m _ found _ =>
      have handle : m.refresh.1.id = id := of_decide_eq_true (List.find?_some found :)
      have filed := tidy.filed stat m (List.mem_of_find?_eq_some found)
      exact attended.same (tidy.updateModifier filed handle) rfl rfl
        (condition_updateModifier found (rfl : m.refresh.1.tree = m.tree))
  | dropModifier dropped => exact attended.dropModifier? dropped
  | dropModifiersOf owed => exact attended.dropModifiersOf _
  | pushStack live new => exact attended.pushStack live new
  | @updateStack effect id s found value =>
      obtain ⟨live, -, stack⟩ := Option.bind_eq_some_iff.1 found
      have handle : s.id = id := LiveEffect.id_of_stack? stack
      have tree : ({ s with value := value } : Stack π).refresh.1.tree = s.tree := rfl
      exact attended.same (tidy.updateStack effect handle) rfl rfl
        (condition_updateStack found tree)
  | stimulate owner stimulus r there =>
      exact attended.setCondition there (Condition.apply_ne_absent there stimulus r)
        fun i fixed => Condition.wants_apply fixed stimulus r _
  | @mergeDuration owner stacking r incoming c there merged =>
      subst merged
      exact attended.mergeDuration there
        (Condition.mergedDuration_ne_absent there stacking r incoming)
        fun i fixed wants => wants.mergedDuration fixed stacking r incoming
  | detachStack detached => exact attended.detachStack? detached
  | @setStacks effect live held found drawn =>
      exact attended.same (tidy.setDrawn found drawn) rfl rfl (condition_setStacks found drawn)
  | storeCount found count active owed => exact attended.storeCount _ count active
  | addEffect registered absent r => exact attended.addEffect absent _
  | dropEffect found owed => exact attended.dropEffect found

theorem Moves.attended (moves : e.Moves rules stats e') (attended : e.Attended) : e'.Attended := by
  induction moves with
  | refl => exact attended
  | step before move listed ih => exact move.attended ih

/-- Walks begin and end without a change for who is subscribed. -/
theorem Attended.walk (attended : e.Attended) {timers : Timers} (tidy : timers.Tidy)
    (same : ∀ owner, timers.contains owner = true ↔ e.timers.contains owner = true) :
    Attended { e with timers := timers } := by
  have trees (owner : Owner) : Entity.condition { e with timers := timers } owner =
      e.condition owner := condition_of_same rfl rfl owner
  have hears (owner : Owner) (i : Interest) :
      Hears { e with timers := timers } owner i ↔ e.Hears owner i := by
    cases i with
    | time => exact same owner
    | stat name => exact Iff.rfl
  refine ⟨{ attended.tidy with }, ⟨tidy, attended.booked.watchers⟩, fun owner i heard => ?_,
    fun owner i fixed => ?_⟩
  · rw [trees]
    exact attended.borne owner i ((hears owner i).1 heard)
  · rw [trees, hears]
    exact attended.exact owner i fixed

/-- A walk begins or ends. -/
theorem Attended.walks {change : Timers → Timers}
    (walk : change = Timers.startWalk ∨ change = Timers.endWalk) (attended : e.Attended) :
    Attended { e with timers := change e.timers } := by
  rcases walk with rfl | rfl
  · exact attended.walk attended.booked.timers.startWalk fun _ => Iff.rfl
  · exact attended.walk attended.booked.timers.endWalk fun _ => Timers.contains_endWalk

end Entity

/-! ### Runs -/

variable [CustomTrigger π] {rules : Rulebook π}

omit [CustomTrigger π] in
theorem Entity.Books.walks {e e' : Entity π} {gone : Owner → Prop} (books : e.Books gone e') :
    e'.timers.walks = e.timers.walks := by
  induction books with
  | refl => rfl
  | aside before timers _ ih => rw [timers, ih]
  | subscribe before owner interests ih =>
      rw [← ih]
      unfold Entity.subscribe
      dsimp only
      split
      · rfl
      · rfl
  | @unsubscribe e₁ owner before left ih =>
      rw [← ih]
      change (e₁.timers.remove owner).walks = _
      unfold Timers.remove
      split
      · split
        · rfl
        · rfl
      · rfl

/-- A move ends the subscriptions of those who lose their trees. -/
theorem Entity.Move.books {stats : List StatName} {effects : List EffectName} {e e' : Entity π}
    (move : e.Move rules stats effects e') (tidy : e.Tidy) :
    ∃ gone, e.Books gone e' ∧
      ∀ owner, gone owner → owner.handle < e.nextHandle ∧ e'.condition owner = .absent := by
  have none {e' : Entity π} (books : e.Books (fun _ => False) e') : ∃ gone, e.Books gone e' ∧
      ∀ owner, gone owner → owner.handle < e.nextHandle ∧ e'.condition owner = .absent :=
    ⟨_, books, fun _ => False.elim⟩
  have trees (owner : Owner) (c : Condition π) :
      e.Books (fun _ => False) (e.setCondition owner c) := by
    obtain ⟨timers, watchers, -⟩ := e.setCondition_rest owner c
    exact Books.refl.aside timers watchers
  cases move with
  | addModifier new => exact none (.addModifier e rules.operators _)
  | dropModifier dropped =>
      refine ⟨_, .dropModifier? dropped, fun owner gone => ⟨?_, ?_⟩⟩
      · rw [gone]
        exact tidy.given_of_dropModifier? dropped
      · exact (tidy.condition_dropModifier? dropped owner).trans (if_pos gone)
  | dropModifiersOf owed =>
      refine ⟨_, .dropModifiersOf e _, fun owner gone => ⟨?_, ?_⟩⟩
      · obtain ⟨m, member, rfl⟩ := gone
        obtain ⟨⟨stat, present⟩, -⟩ := ModifierLists.mem_ofSource.1 member
        exact tidy.given stat m present
      · exact (tidy.condition_dropModifiersOf _ owner).trans (if_pos gone)
  | pushStack live new => exact none (.pushStack e _ _)
  | stimulate owner stimulus r there => exact none (trees owner _)
  | @mergeDuration owner _ _ _ c there merged => exact none ((trees owner c).subscribe owner _)
  | detachStack detached =>
      refine ⟨_, .detachStack? detached, fun owner gone => ⟨?_, ?_⟩⟩
      · obtain ⟨live, s, there, stack, -⟩ := detachStack?_eq_some detached
        rw [gone, ← LiveEffect.id_of_stack? stack]
        exact (tidy.effects _ live there).given s (List.mem_of_find?_eq_some stack)
      · exact (tidy.condition_detachStack? detached owner).trans (if_pos gone)
  | addEffect registered absent r => exact none (.addEffect e _ _)
  | dropEffect found owed =>
      refine ⟨_, .dropEffect e _ _, fun owner gone => ⟨?_, ?_⟩⟩
      · rcases gone with ⟨s, member, rfl⟩ | ⟨index, -, rfl⟩
        · exact (tidy.effects _ _ found).given s member
        · exact (tidy.effects _ _ found).numbered
      · exact (tidy.condition_dropEffect found owner).trans (if_pos gone)
  | _ => exact none (Books.refl.aside rfl rfl)

theorem Entity.Move.walks {stats : List StatName} {effects : List EffectName} {e e' : Entity π}
    (move : e.Move rules stats effects e') (tidy : e.Tidy) :
    e'.timers.walks = e.timers.walks := by
  obtain ⟨gone, books, -⟩ := move.books tidy
  exact books.walks

/-- The subscriptions stay in step with the trees, and every walk that began has ended. -/
def Entity.Attends (e e' : Entity π) : Prop :=
  e.Attended → e'.Attended ∧ e'.timers.walks = e.timers.walks

theorem Entity.Attends.refl (e : Entity π) : e.Attends e := fun attended => ⟨attended, rfl⟩

theorem Entity.Attends.trans {e₁ e₂ e₃ : Entity π} (first : e₁.Attends e₂)
    (second : e₂.Attends e₃) : e₁.Attends e₃ := by
  intro attended
  obtain ⟨attended₂, walks₂⟩ := first attended
  obtain ⟨attended₃, walks₃⟩ := second attended₂
  exact ⟨attended₃, walks₃.trans walks₂⟩

theorem Entity.Move.attends {stats : List StatName} {effects : List EffectName} {e e' : Entity π}
    (move : e.Move rules stats effects e') : e.Attends e' :=
  fun attended => ⟨move.attended attended, move.walks attended.tidy⟩

/-- What is kept within a walk is kept across it. -/
theorem Entity.Attends.walk {e e' : Entity π}
    (within : Entity.Attends { e with timers := e.timers.startWalk } e') :
    e.Attends { e' with timers := e'.timers.endWalk } := by
  intro attended
  obtain ⟨attended', walks⟩ := within
    (attended.walk attended.booked.timers.startWalk fun _ => Iff.rfl)
  refine ⟨attended'.walk attended'.booked.timers.endWalk fun _ => Timers.contains_endWalk, ?_⟩
  have opened : e'.timers.walks = e.timers.walks + 1 := walks
  change e'.timers.endWalk.walks = _
  rw [Timers.walks_endWalk, opened, Nat.add_sub_cancel]

theorem Engine.admits_attends (rules : Rulebook π) :
    Engine.Admits rules fun w w' => w.entity.Attends w'.entity :=
  .of_entity .refl .trans Entity.Move.attends .walk

/-- At the start nobody is subscribed and nobody has a tree. -/
theorem Entity.Attended.start (values : Table StatValue) :
    Entity.Attended ({ Entity.new with values := values } : Entity π) where
  tidy := { Entity.Tidy.new with }
  booked := ⟨.empty, .empty⟩
  borne owner i hears := by
    cases i with
    | time => cases hears
    | stat name => cases hears
  exact owner i _ := by
    constructor
    · intro hears
      cases i with
      | time => cases hears
      | stat name => cases hears
    · intro wants
      cases owner with
      | modifier stat id => exact absurd wants (Condition.not_wants_absent i)
      | stack effect id => exact absurd wants (Condition.not_wants_absent i)
      | custom effect serial index => exact absurd wants (Condition.not_wants_absent i)

/-- Between calls no walk is open. -/
theorem Reached.attended {snapshots : Snapshot → Prop} {calls : Entity π → Call π → Prop}
    {w : World π} (reached : Reached rules snapshots calls w) :
    w.entity.Attended ∧ w.entity.timers.walks = 0 := by
  let closed : World π → Prop := fun w => w.entity.Attended ∧ w.entity.timers.walks = 0
  have kept (w w' : World π) (attends : w.entity.Attends w'.entity) (before : closed w) :
      closed w' := by
    obtain ⟨attended, walks⟩ := attends before.1
    exact ⟨attended, walks.trans before.2⟩
  exact reached.of_admits (Engine.admits_attends rules) kept fun values => ⟨.start values, rfl⟩

/-- Whenever an outermost call comes back, only owners of live trees wait for time or watch a stat,
none of them is there twice, and no list of watchers is empty. If time and restarts leave alone
whether time passes for the triggers of the game, the owners that wait are those that bear a tree
with a node that lets time pass. If they leave alone what the triggers watch, the owners that watch a
stat are those that bear a tree with a node that watches it. -/
theorem subscriptions_exact {snapshots : Snapshot → Prop} {calls : Entity π → Call π → Prop}
    {w : World π} (reached : Reached rules snapshots calls w) :
    (w.entity.timers.leaving = [] ∧ w.entity.timers.owners.Nodup ∧
      (∀ owner ∈ w.entity.timers.owners, ∃ c gate, w.entity.Bears owner c gate) ∧
      (FixedTiming π → ∀ owner, owner ∈ w.entity.timers.owners ↔
        ∃ c gate, w.entity.Bears owner c gate ∧ c.UsesTimer)) ∧
    ∀ stat,
      (∀ owners, w.entity.watchers.lists.get? stat = some owners → owners ≠ []) ∧
      (w.entity.watchers.get stat).Nodup ∧
      (∀ owner ∈ w.entity.watchers.get stat, ∃ c gate, w.entity.Bears owner c gate) ∧
      (FixedWatch π → ∀ owner, owner ∈ w.entity.watchers.get stat ↔
        ∃ c gate, w.entity.Bears owner c gate ∧ c.Watches stat) := by
  obtain ⟨attended, closed⟩ := reached.attended
  have borne (owner : Owner) (i : Interest) (hears : w.entity.Hears owner i) :
      ∃ c gate, w.entity.Bears owner c gate := by
    obtain ⟨gate, bears⟩ := Entity.bears_of_present (attended.borne owner i hears)
    exact ⟨_, gate, bears⟩
  have heard (owner : Owner) (i : Interest) (fixed : i.Fixed π) : w.entity.Hears owner i ↔
      ∃ c gate, w.entity.Bears owner c gate ∧ c.Wants i := by
    constructor
    · intro hears
      obtain ⟨gate, bears⟩ := Entity.bears_of_present (attended.borne owner i hears)
      exact ⟨_, gate, bears, (attended.exact owner i fixed).1 hears⟩
    · rintro ⟨c, gate, bears, wants⟩
      rw [attended.exact owner i fixed, attended.tidy.condition_of_bears bears]
      exact wants
  have waits (owner : Owner) : owner ∈ w.entity.timers.owners ↔ w.entity.Hears owner .time :=
    attended.booked.timers.mem_owners closed
  refine ⟨⟨attended.booked.timers.settled closed, attended.booked.timers.distinct,
    fun owner listed => borne owner .time ((waits owner).1 listed),
    fun fixed owner => (waits owner).trans (heard owner .time fixed)⟩,
    fun stat => ⟨fun owners listed => ?_, ?_, fun owner listed => borne owner (.stat stat) listed,
      fun fixed owner => heard owner (.stat stat) fixed⟩⟩
  · exact (attended.booked.watchers stat owners listed).1
  · exact attended.booked.watchers.get_nodup stat

def haste : EffectDefinition Empty :=
  { EffectDefinition.ofName "haste" with stacking := .extend }

def hasteRules : Rulebook Empty :=
  ((Rulebook.builtin.registerEffect haste).toOption).getD .builtin

def lastStand : Stack Empty :=
  { (Stack.ofValue 1 : Stack Empty) with
    duration := .ofTrigger (.threshold ⟨"health", .greaterEquals, 50, false⟩) }

/-- The second stack makes the first one watch health as well. -/
theorem haste_subscribed : ∃ (w : World Empty) (owner : Owner),
    Reached hasteRules (fun _ => True) (fun _ _ => True) w ∧ FixedTiming Empty ∧ FixedWatch Empty ∧
      w.entity.timers.owners = [owner] ∧ w.entity.watchers.get "health" = [owner] ∧
      (∃ c gate, w.entity.Bears owner c gate ∧ c.UsesTimer) ∧
      ∃ c gate, w.entity.Bears owner c gate ∧ c.Watches "health" := by
  have made : ((Engine.performAll hasteRules 6
      [.addStack "haste" { (Stack.ofValue 1 : Stack Empty) with duration := .timed 5 } none,
        .addStack "haste" lastStand none] (.ofEntity .new)).any fun w =>
      w.entity.timers.owners = [.stack "haste" 2] &&
        w.entity.watchers.get "health" = [.stack "haste" 2]) = true := by
    decide +kernel
  obtain ⟨w, run, checked⟩ := (Option.any_eq_true ..).1 made
  rw [Bool.and_eq_true, decide_eq_true_eq, decide_eq_true_eq] at checked
  obtain ⟨waiting, watching⟩ := checked
  have reached : Reached hasteRules (fun _ => True) (fun _ _ => True) w :=
    Engine.reached_of_performAll .new (fun _ _ _ => trivial) run
  have timed : FixedTiming Empty := ⟨nofun, nofun⟩
  have fixed : FixedWatch Empty := ⟨nofun, nofun⟩
  obtain ⟨⟨-, -, -, timers⟩, watchers⟩ := subscriptions_exact reached
  obtain ⟨-, -, -, watchers⟩ := watchers "health"
  refine ⟨w, .stack "haste" 2, reached, timed, fixed, waiting, watching, (timers timed _).1 ?_,
    (watchers fixed _).1 ?_⟩
  · rw [waiting]
    exact List.mem_singleton_self _
  · rw [watching]
    exact List.mem_singleton_self _

/-- The tree of a lookout that has turned to mana, with no mana there. -/
def Lookout.turned : Condition Lookout :=
  .node ⟨.custom .late, false, false, false, false, true⟩ .absent .absent

/-- A lookout turns from health to mana after a second. Its owner still waits for time and watches
health, and misses what happens to mana. -/
theorem scout_missubscribed : ∃ (w : World Lookout) (owner : Owner) (c : Condition Lookout)
    (gate : Option Gate),
    scout.Fresh ∧ Reached .builtin (fun _ => True)
      (fun _ call => call = .addModifier scout (some "item") ∨ call = .passTime 1) w ∧
      owner ∈ w.entity.timers.owners ∧
      ¬(∃ c gate, w.entity.Bears owner c gate ∧ c.UsesTimer) ∧
      owner ∈ w.entity.watchers.get "health" ∧
      ¬(∃ c gate, w.entity.Bears owner c gate ∧ c.Watches "health") ∧
      w.entity.Bears owner c gate ∧ c.Watches "mana" ∧
      owner ∉ w.entity.watchers.get "mana" := by
  have made : ((Engine.performAll .builtin 4 [.addModifier scout (some "item"), .passTime 1]
      (.ofEntity .new)).any fun w : World Lookout =>
      w.entity.timers.owners = [.modifier "attack" 1] &&
        w.entity.watchers.get "health" = [.modifier "attack" 1] &&
        w.entity.watchers.get "mana" = [] &&
        w.entity.condition (.modifier "attack" 1) = Lookout.turned) = true := by
    decide +kernel
  obtain ⟨w, run, checked⟩ := (Option.any_eq_true ..).1 made
  simp only [Bool.and_eq_true, decide_eq_true_eq] at checked
  obtain ⟨⟨⟨waiting, watching⟩, unwatched⟩, tree⟩ := checked
  have reached : Reached (.builtin : Rulebook Lookout) (fun _ => True)
      (fun _ call => call = .addModifier scout (some "item") ∨ call = .passTime 1) w := by
    refine Engine.reached_of_performAll .new (fun c listed _ => ?_) run
    simpa only [List.mem_cons, List.not_mem_nil, or_false] using listed
  have tidy := reached.attended.1.tidy
  have only (c : Condition Lookout) (gate : Option Gate)
      (bears : w.entity.Bears (.modifier "attack" 1) c gate) : c = Lookout.turned := by
    rw [← tidy.condition_of_bears bears, tree]
  have there : w.entity.condition (.modifier "attack" 1) ≠ .absent := by
    rw [tree]
    exact nofun
  obtain ⟨gate, bears⟩ := Entity.bears_of_present there
  rw [tree] at bears
  refine ⟨w, .modifier "attack" 1, Lookout.turned, gate, by decide, reached, ?_, ?_, ?_, ?_, bears,
    ⟨_, List.mem_singleton_self _, rfl⟩, ?_⟩
  · rw [waiting]
    exact List.mem_singleton_self _
  · rintro ⟨c, gate, bears, n, member, waits⟩
    rw [only c gate bears] at member
    rw [List.mem_singleton.1 member] at waits
    cases waits
  · rw [watching]
    exact List.mem_singleton_self _
  · rintro ⟨c, gate, bears, n, member, watches⟩
    rw [only c gate bears] at member
    rw [List.mem_singleton.1 member] at watches
    exact absurd (Option.some.inj watches) (by decide)
  · rw [unwatched]
    exact List.not_mem_nil

end StatusEffects
