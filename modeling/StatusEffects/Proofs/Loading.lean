import StatusEffects.Proofs.ExactConditions
import StatusEffects.Proofs.Mirroring
import StatusEffects.Proofs.Shares

/-!
Entities that are being set up again.

While the parts of an entity are added again its stats have their values already and every tree is
exact for the entity that was saved, so each addition comes back, an announcement changes nothing,
and what becomes of the entity can be told step by step.
-/

set_option autoImplicit false

namespace StatusEffects

variable {π : Type} [CustomTrigger π]

namespace Entity

omit [CustomTrigger π] in
theorem contains_modifyEffect (e : Entity π) (effect other : EffectName)
    (change : LiveEffect π → LiveEffect π) :
    (e.modifyEffect effect change).effects.contains other = e.effects.contains other := by
  unfold Table.contains
  rw [get?_modifyEffect]
  split
  · exact Option.isSome_map
  · rfl

/-- An entity while it is set up again. Certain stats have modifiers, the other ones have none; every
tree is steady and as it was saved; and of modifiers with operators of one rank the plain ones come
first, then those of the effects in the order of their names. -/
structure Loading (rules : Rulebook π) (e saved : Entity π) (touched : StatName → Prop) :
    Prop where
  tidy : e.Tidy
  values : e.values = saved.values
  ranked : e.Ranked rules.operators
  ordered : ∀ stat, (e.modifiers.get stat).Pairwise fun a b =>
    rules.operators.rank a.op = rules.operators.rank b.op → a.patron ≠ b.patron →
      a.patron < b.patron
  patrons : ∀ stat, ∀ m ∈ e.modifiers.get stat, m.patron = none ∨
    ∃ effect, m.source = some (SourceTag.ofEffect effect) ∧ e.effects.contains effect = true
  confined : ∀ stat, ¬touched stat → e.modifiers.get stat = []
  trees : ∀ owner c gate, e.Bears owner c gate →
    c.Steady touched ∧ c.Exact (rules.readings saved)

variable {rules : Rulebook π} {saved e e' : Entity π} {touched : StatName → Prop}

namespace Loading

section

variable (plain : rules.statRules = ∅)
  (idle : ∀ stat, ¬touched stat → saved.modifiers.get stat = [])

include plain idle

theorem agree (loading : e.Loading rules saved touched) :
    (rules.readings saved).AgreeBut touched (rules.readings e) where
  current := by
    funext stat
    change (rules.stat e stat).current = (rules.stat saved stat).current
    unfold Rulebook.stat
    rw [loading.values]
  computed stat free := by
    have same : e.SameAt saved stat := by
      refine ⟨by rw [loading.values], ?_⟩
      rw [loading.confined stat free, idle stat free]
    exact (rules.readings_agree plain same).2

theorem atRest (loading : e.Loading rules saved touched) : e.AtRest rules := by
  intro owner c gate bears
  obtain ⟨steady, exact⟩ := loading.trees owner c gate bears
  exact exact.of_steady steady (loading.agree plain idle)

end

/-! ### What keeps the invariant -/

/-- Effects and stacks may come, as long as every new tree is as it was saved. -/
theorem quiet (loading : e.Loading rules saved touched) (tidy : e'.Tidy)
    (values : e'.values = e.values) (modifiers : e'.modifiers = e.modifiers)
    (lives : ∀ effect, e.effects.contains effect = true → e'.effects.contains effect = true)
    (trees : ∀ owner c gate, e'.Bears owner c gate → e.Bears owner c gate ∨
      (c.Steady touched ∧ c.Exact (rules.readings saved))) :
    e'.Loading rules saved touched where
  tidy := tidy
  values := values.trans loading.values
  ranked := loading.ranked.of_same modifiers
  ordered stat := by
    rw [modifiers]
    exact loading.ordered stat
  patrons stat m member := by
    rw [modifiers] at member
    refine (loading.patrons stat m member).imp_right ?_
    rintro ⟨effect, sourced, live⟩
    exact ⟨effect, sourced, lives effect live⟩
  confined stat free := by
    rw [modifiers]
    exact loading.confined stat free
  trees owner c gate bears := (trees owner c gate bears).elim (loading.trees owner c gate) id

theorem of_same (loading : e.Loading rules saved touched) (tidy : e'.Tidy)
    (values : e'.values = e.values) (modifiers : e'.modifiers = e.modifiers)
    (effects : e'.effects = e.effects) : e'.Loading rules saved touched :=
  loading.quiet tidy values modifiers (fun effect => by rw [effects]; exact id)
    fun _ _ _ bears => .inl (bears.of_same modifiers effects)

theorem dropModifiersOf (loading : e.Loading rules saved touched) (source : SourceTag) :
    (e.dropModifiersOf source).Loading rules saved touched where
  tidy := loading.tidy.dropModifiersOf source
  values := (dropModifiersOf_values e source).trans loading.values
  ranked stat := by
    rw [get_dropModifiersOf]
    exact (loading.ranked stat).sublist List.filter_sublist
  ordered stat := by
    rw [get_dropModifiersOf]
    exact (loading.ordered stat).sublist List.filter_sublist
  patrons stat m member := by
    rw [dropModifiersOf_effects]
    exact loading.patrons stat m (mem_dropModifiersOf.1 member).1
  confined stat free := by
    rw [get_dropModifiersOf, loading.confined stat free]
    rfl
  trees owner c gate bears :=
    loading.trees owner c gate (loading.tidy.sheds_dropModifiersOf source owner c gate bears).1

/-- A modifier may come if its tree is as it was saved and its patron comes behind the others. -/
theorem addModifier (loading : e.Loading rules saved touched) {m : Modifier π}
    (new : m.id = e.nextHandle) (there : touched m.stat)
    (patron : m.patron = none ∨
      ∃ effect, m.source = some (SourceTag.ofEffect effect) ∧ e.effects.contains effect = true)
    (last : ∀ a ∈ e.modifiers.get m.stat, a.patron ≠ m.patron → a.patron < m.patron)
    (steady : m.duration.Steady touched) (exact : m.duration.Exact (rules.readings saved)) :
    (e.takeHandle.2.addModifier rules.operators m).Loading rules saved touched where
  tidy := loading.tidy.addNewModifier rules.operators new
  values := loading.values
  ranked := (Move.addModifier new).ranked loading.ranked
  ordered stat := by
    change ((e.modifiers.insert rules.operators m).get stat).Pairwise _
    rw [ModifierLists.get_insert]
    split
    · rename_i here
      subst here
      refine OperatorTable.pairwise_place (loading.ranked _) (loading.ordered _) m
        (fun a member _ _ => last a member) fun b _ less equal => ?_
      rw [equal] at less
      exact absurd less (Int.lt_irrefl _)
    · exact loading.ordered stat
  patrons stat x member := by
    change x ∈ (e.modifiers.insert rules.operators m).get stat at member
    rw [ModifierLists.get_insert] at member
    split at member
    · rename_i here
      subst here
      rw [(ModifierLists.place_perm rules.operators m _).mem_iff, List.mem_cons] at member
      rcases member with rfl | before
      · exact patron
      · exact loading.patrons _ x before
    · exact loading.patrons stat x member
  confined stat free := by
    change (e.modifiers.insert rules.operators m).get stat = []
    rw [ModifierLists.get_insert, if_neg]
    · exact loading.confined stat free
    · rintro rfl
      exact free there
  trees owner c gate bears := by
    rcases bears_addModifier rules.operators m bears with ⟨before, -⟩ | ⟨-, rfl, -⟩
    · exact loading.trees owner c gate (before.of_same rfl rfl)
    · exact ⟨steady, exact⟩

end Loading

end Entity

/-! ### Entries that come back -/

section

variable {touched : StatName → Prop} {r r' : Readings}

theorem Modifier.attach_steady {m : Modifier π} (steady : m.duration.Steady touched)
    (agree : r.AgreeBut touched r') (id : Handle) (source : Option SourceTag) :
    ({ m.pristine with id := id }).attach r' source = { m.pristine.attach r source with id := id } := by
  have armed : m.duration.pristine.arm r' = m.duration.pristine.arm r :=
    Condition.arm_eq steady.pristine agree
  change ({ m.pristine with
      id := id
      attached := true
      source := source
      duration := m.duration.pristine.arm r' } : Modifier π).refresh.1 = _
  rw [armed]
  rfl

/-- A modifier that is built and attached again is as it was but for its handle. -/
theorem Modifier.attach_pristine {m : Modifier π} (exact : m.duration.Exact r)
    (active : m.active = !m.duration.holds m.isSourced) (id : Handle) :
    ({ m.pristine with id := id }).attach r m.source = { m with id := id, attached := true } := by
  change ({ m.pristine with
      id := id
      attached := true
      source := m.source
      duration := m.duration.pristine.arm r } : Modifier π).refresh.1 = _
  rw [exact.arm_pristine]
  change ({ m with id := id, attached := true, active := !m.duration.holds m.isSourced } :
    Modifier π) = _
  rw [← active]

end

/-! ### Effects without hooks -/

structure EffectDefinition.Unhooked (d : EffectDefinition π) : Prop where
  onActivate : d.onActivate = none
  onDeactivate : d.onDeactivate = none

structure EffectDefinition.Silent (d : EffectDefinition π) : Prop where
  onActivate : d.onActivate = none
  onDeactivate : d.onDeactivate = none
  onAddStack : d.onAddStack = none
  customEffects : d.customEffects = []

omit [CustomTrigger π] in
theorem EffectDefinition.Silent.unhooked {d : EffectDefinition π} (silent : d.Silent) : d.Unhooked :=
  ⟨silent.onActivate, silent.onDeactivate⟩

omit [CustomTrigger π] in
theorem Rulebook.silent {rules : Rulebook π} (hookless : ∀ hook script, ¬rules.Starts hook script)
    {effect : EffectName} {d : EffectDefinition π}
    (registered : rules.effects.get? effect = some d) : d.Silent where
  onActivate := Option.eq_none_iff_forall_ne_some.2 fun _ there =>
    hookless _ _ (.activated registered there)
  onDeactivate := Option.eq_none_iff_forall_ne_some.2 fun _ there =>
    hookless _ _ (.deactivated registered there)
  onAddStack := Option.eq_none_iff_forall_ne_some.2 fun _ there =>
    hookless _ _ (.stackAdded registered there)
  customEffects := by
    cases custom : d.customEffects with
    | nil => rfl
    | cons first rest =>
        refine absurd (.custom registered ?_) (hookless (.custom effect 0 0) (first.action effect))
        rw [custom]
        rfl

omit [CustomTrigger π] in
theorem Rulebook.hookless_of_silent {rules : Rulebook π}
    (silent : ∀ name d, rules.effects.get? name = some d → d.Silent)
    (unmodified : rules.modifiedHooks = ∅) (hook : Hook) (script : Script π Unit) :
    ¬rules.Starts hook script := by
  intro starts
  cases starts with
  | activated registered there =>
      rw [(silent _ _ registered).onActivate] at there
      cases there
  | deactivated registered there =>
      rw [(silent _ _ registered).onDeactivate] at there
      cases there
  | stackAdded registered there =>
      rw [(silent _ _ registered).onAddStack] at there
      cases there
  | custom registered there =>
      rw [(silent _ _ registered).customEffects] at there
      cases there
  | modified registered =>
      rw [unmodified, Table.get?_empty] at registered
      cases registered

omit [CustomTrigger π] in
theorem Rulebook.hookless_of_values {rules : Rulebook π} {definitions : List (EffectDefinition π)}
    (values : rules.effects.values = definitions) (silent : ∀ d ∈ definitions, d.Silent)
    (unmodified : rules.modifiedHooks = ∅) (hook : Hook) (script : Script π Unit) :
    ¬rules.Starts hook script := by
  refine hookless_of_silent (fun name d registered => silent d ?_) unmodified hook script
  rw [← values]
  exact Table.mem_values.2 ⟨name, registered⟩

namespace Engine

open Act

variable {rules : Rulebook π} {saved e e' : Entity π} {touched : StatName → Prop}
  {nested : Nested π}

def Restful (rules : Rulebook π) (nested : Nested π) : Prop :=
  ∀ e stat, e.AtRest rules → (nested (.announce stat)).Brings e () e

theorem insertModifier_brings {m m' : Modifier π} {source : Option SourceTag}
    (attached : ({ m with id := e.nextHandle }).attach (rules.readings e.takeHandle.2) source = m')
    (kept : m'.active = true ∨ m'.isSourced = true)
    (announced : (nested (.announce m'.stat)).Brings
      (e.takeHandle.2.addModifier rules.operators m') ()
      (e.takeHandle.2.addModifier rules.operators m')) :
    (insertModifier nested rules m source).Brings e (.modifier e.nextHandle)
      (e.takeHandle.2.addModifier rules.operators m') := by
  subst attached
  unfold insertModifier
  refine .bind (.updateEntity Entity.takeHandle e) (.bind (.consulted _) ?_)
  dsimp only
  rw [if_neg]
  · exact .bind (.modifyEntity _ _) (.bind announced (.pure _ _))
  · rintro discarded
    rw [Bool.and_eq_true, Bool.not_eq_true', Bool.not_eq_true'] at discarded
    rcases kept with active | sourced
    · exact Bool.false_ne_true (discarded.1.symm.trans active)
    · exact Bool.false_ne_true (discarded.2.symm.trans sourced)

/-- Certain modifiers of an effect have been applied, and those of others were left alone. -/
structure Renewing (rules : Rulebook π) (saved : Entity π) (touched : StatName → Prop)
    (effect : EffectName) (applied : List (Modifier π)) (e e' : Entity π) : Prop where
  loading : e'.Loading rules saved touched
  effects : e'.effects = e.effects
  own : ∀ stat, e'.share (Entity.ofEffect effect) stat = (rules.operators.placed
    ((applied.filter fun m => m.stat = stat).map fun m =>
      m.renewed (rules.readings saved) effect)).map Modifier.kernel
  others : ∀ owns : Option SourceTag → Bool, owns (some (SourceTag.ofEffect effect)) = false →
    ∀ stat, e'.share owns stat = e.share owns stat

section

variable (plain : rules.statRules = ∅)
  (idle : ∀ stat, ¬touched stat → saved.modifiers.get stat = [])
  (announces : Restful rules nested)

include plain idle announces

theorem removeModifiersOf_brings (loading : e.Loading rules saved touched) (source : SourceTag) :
    ∃ removed e', (removeModifiersOf nested source).Brings e removed e' ∧
      e'.Loading rules saved touched ∧ e'.effects = e.effects ∧
      ∀ stat, e'.modifiers.get stat =
        (e.modifiers.get stat).filter fun m => m.source ≠ some source := by
  unfold removeModifiersOf
  by_cases none : (e.modifiers.ofSource (some source)).isEmpty = true
  · refine ⟨0, e, .bind (.entity e) ?_, loading, rfl, fun stat => ?_⟩
    · dsimp only
      rw [if_pos none]
      exact .pure 0 e
    · symm
      rw [List.filter_eq_self]
      intro m member
      rw [decide_eq_true_eq]
      intro sourced
      have present := ModifierLists.mem_ofSource.2 ⟨⟨stat, member⟩, sourced⟩
      rw [List.isEmpty_iff.1 none] at present
      cases present
  · have dropped := loading.dropModifiersOf source
    refine ⟨(e.modifiers.ofSource (some source)).length, e.dropModifiersOf source,
      .bind (.entity e) ?_, dropped, Entity.dropModifiersOf_effects e source,
      Entity.get_dropModifiersOf e source⟩
    have round (stat : StatName) (e' : Entity π) (same : e' = e.dropModifiersOf source) :
        ∃ e₁, (nested (.announce stat)).Brings e' () e₁ ∧ e₁ = e.dropModifiersOf source :=
      ⟨e', announces e' stat (same ▸ dropped.atRest plain idle), same⟩
    dsimp only
    rw [if_neg none]
    refine .bind (.modifyEntity _ e) (.bind (a := ()) ?_ (.pure _ _))
    obtain ⟨e', brings, rfl⟩ := Brings.forM (fun _ e' => e' = e.dropModifiersOf source) _
      (fun _ stat _ e' _ same => round stat e' same) rfl
    exact brings

/-- Another modifier of an effect is applied. -/
theorem renewOne_brings {d : EffectDefinition π} {applied : List (Modifier π)}
    (renewing : Renewing rules saved touched d.effect applied e e')
    (lives : e.effects.contains d.effect = true)
    (latest : ∀ effect, e.effects.contains effect = true → ¬d.effect < effect)
    {t : Modifier π} (steady : t.duration.Steady touched) (there : touched t.stat)
    (count : UInt32) :
    ∃ e₁, Brings (do
      let m := (← Act.updateEntity Entity.acquireModifier).configure t
      let m := { m with value := m.value * count.toFloat32 }
      Act.record (.renewed d.effect m)
      let _ ← insertModifier nested rules m (some (SourceTag.ofEffect d.effect))) e' () e₁ ∧
      Renewing rules saved touched d.effect (applied ++ [t.times count]) e e₁ := by
  have loading : e'.acquireModifier.2.Loading rules saved touched :=
    renewing.loading.of_same renewing.loading.tidy.acquireModifier rfl rfl rfl
  have handled : e'.acquireModifier.2.takeHandle.2.Loading rules saved touched :=
    loading.of_same loading.tidy.takeHandle rfl rfl rfl
  let m' : Modifier π := { (t.times count).renewed (rules.readings saved) d.effect with
    id := e'.nextHandle }
  have attached : ({ (t.times count).pristine with id := e'.nextHandle }).attach
      (rules.readings e'.acquireModifier.2.takeHandle.2) (some (SourceTag.ofEffect d.effect)) = m' :=
    Modifier.attach_steady (m := t.times count) steady (handled.agree plain idle) _ _
  have sourced : m'.source = some (SourceTag.ofEffect d.effect) := rfl
  have patron := Modifier.patron_of_ofEffect sourced
  have added : (e'.acquireModifier.2.takeHandle.2.addModifier rules.operators m').Loading rules saved
      touched := by
    refine loading.addModifier rfl there (.inr ⟨_, sourced, ?_⟩) (fun a member other => ?_) ?_ ?_
    · change e'.effects.contains d.effect = true
      rw [renewing.effects]
      exact lives
    · rw [patron] at other ⊢
      rcases renewing.loading.patrons _ a member with plain | ⟨effect, sourced, live⟩
      · rw [plain]
        exact trivial
      · rw [Modifier.patron_of_ofEffect sourced] at other ⊢
        rw [renewing.effects] at live
        refine SourceTag.ofEffect_lt (Table.lt_of_not_lt_of_ne (latest effect live) ?_)
        rintro rfl
        exact other rfl
    · exact steady.pristine.arm _
    · exact Condition.exact_arm (Condition.unarmed_pristine _) _
  refine ⟨_, .bind (.updateEntity Entity.acquireModifier e') ?_, added, renewing.effects,
    fun stat => ?_, fun owns others stat => ?_⟩
  · rw [renewing.loading.tidy.acquireModifier_fst]
    have inserts :=
      insertModifier_brings attached (.inr rfl) (announces _ _ (added.atRest plain idle))
    exact .bind (.record _ _) (inserts.bind (.pure _ _))
  · have unmoved : e'.acquireModifier.2.takeHandle.2.share (Entity.ofEffect d.effect) stat =
        e'.share (Entity.ofEffect d.effect) stat := Entity.share_of_modifiers rfl
    have owned : Entity.ofEffect d.effect m'.source = true := decide_eq_true sourced
    rw [Entity.share_addModifier handled.ranked, unmoved, renewing.own, List.filter_append]
    by_cases here : (t.times count).stat = stat
    · have last : [t.times count].filter (fun m => m.stat = stat) = [t.times count] := by simp [here]
      rw [if_pos ⟨here.symm, owned⟩, last, List.map_append, List.map_singleton,
        OperatorTable.placed_concat, OperatorTable.map_place Modifier.kernel_op]
      rfl
    · have last : [t.times count].filter (fun m => m.stat = stat) = [] := by simp [here]
      rw [if_neg (fun both => here both.1.symm), last, List.append_nil]
  · rw [Entity.share_addModifier handled.ranked, if_neg]
    · exact renewing.others owns others stat
    · rintro ⟨-, owned⟩
      rw [sourced, others] at owned
      cases owned

/-- A renewal leaves the modifiers that are due in the place of those that were there. -/
theorem renewModifiers_brings (loading : e.Loading rules saved touched) {d : EffectDefinition π}
    (lives : e.effects.contains d.effect = true)
    (latest : ∀ effect, e.effects.contains effect = true → ¬d.effect < effect)
    (templates : ∀ t ∈ d.modifiers, t.duration.Steady touched ∧ touched t.stat)
    (active : Bool) (count : UInt32) :
    ∃ e', (renewModifiers nested rules d active count).Brings e () e' ∧
      Renewing rules saved touched d.effect (if active then d.scaled count else []) e e' := by
  obtain ⟨removed, e₁, removes, loading₁, effects₁, rest⟩ :=
    removeModifiersOf_brings plain idle announces loading (SourceTag.ofEffect d.effect)
  have start : Renewing rules saved touched d.effect [] e e₁ :=
    ⟨loading₁, effects₁, fun stat => Entity.share_of_gone (rest stat),
      fun owns others stat => Entity.share_of_rest (rest stat) others⟩
  unfold renewModifiers
  cases active with
  | false =>
      refine ⟨e₁, .bind (.record _ e) (.bind removes ?_), start⟩
      exact .record _ e₁
  | true =>
      obtain ⟨e₂, renews, renewing⟩ := Brings.forM
        (fun applied e' => Renewing rules saved touched d.effect
          (applied.map fun t => t.times count) e e') d.modifiers
        (fun before t after e' whole renewing => by
          have member : t ∈ d.modifiers := by
            rw [whole]
            exact List.mem_append_right _ (List.mem_cons_self ..)
          obtain ⟨steady, there⟩ := templates t member
          rw [List.map_append, List.map_singleton]
          exact renewOne_brings plain idle announces renewing lives latest steady there count) start
      refine ⟨e₂, .bind (.record _ e) (.bind removes ?_), renewing⟩
      exact .bind renews (.record _ e₂)

end

/-! ### Settling again -/

section

variable {d : EffectDefinition π} {live : LiveEffect π}

omit [CustomTrigger π] in
theorem announceFlip_brings (registered : rules.effects.get? d.effect = some d)
    (unhooked : d.Unhooked) (active : Bool) (e : Entity π) :
    (announceFlip nested rules d.effect active).Brings e () e := by
  unfold announceFlip
  rw [registered, Option.bind_some, Option.bind_some, unhooked.onActivate, unhooked.onDeactivate]
  cases active with
  | true => exact .bind (.pure () e) (.record _ e)
  | false => exact .bind (.pure () e) (.record _ e)

omit [CustomTrigger π] in
theorem settleFlip_brings (registered : rules.effects.get? d.effect = some d)
    (unhooked : d.Unhooked) {v : Verdict} (holds : v.holds e d.effect = true) :
    (settleFlip nested rules d.effect v).Brings e true e := by
  unfold settleFlip
  split
  · refine .bind (announceFlip_brings registered unhooked v.active e) (.bind (.entity e) ?_)
    rw [holds]
    exact .pure true e
  · exact .pure true e

omit [CustomTrigger π] in
theorem drain_brings {effect : EffectName} (found : e.effects.get? effect = some live)
    (drained : ∀ s ∈ live.held, s.isSourced = true) : (drain effect).Brings e () e := by
  have sourced : live.sourcelessStacks = [] := by
    unfold LiveEffect.sourcelessStacks
    rw [List.map_eq_nil_iff, List.filter_eq_nil_iff]
    intro s member
    rw [drained s member]
    exact Bool.false_ne_true
  unfold drain
  refine .bind (.entity e) ?_
  rw [found]
  dsimp only
  rw [sourced]
  exact .pure () e

omit [CustomTrigger π] in
theorem settleEnd_brings {effect : EffectName} {v : Verdict}
    (found : e.effects.get? effect = some live) (finished : live.held ≠ [])
    (drained : v.count = 0 → ∀ s ∈ live.held, s.isSourced = true) :
    (settleEnd nested rules effect v).Brings e () e := by
  unfold settleEnd
  split
  · rename_i zero
    refine (drain_brings found (drained zero)).bind ?_
    unfold removeIfEmpty
    refine .bind (.entity e) ?_
    rw [found, Option.any_some, if_neg]
    · exact .pure () e
    · rw [List.isEmpty_iff]
      exact finished
  · exact .pure () e

omit [CustomTrigger π] in
theorem applies_of_mortal (mortal : rules.immunity = none) (e : Entity π) (effect : EffectName)
    (count : UInt32) : (0 < count && !rules.isImmune e effect) = decide (0 < count) := by
  unfold Rulebook.isImmune
  rw [mortal]
  exact Bool.and_true _

omit [CustomTrigger π] in
theorem recount_brings {effect : EffectName} (found : e.effects.get? effect = some live)
    (bounded : live.activeSum < UInt32.size) {count : UInt32}
    (counted : live.activeSum.toUInt32 = count) {active : Bool}
    (applies : (0 < count && !rules.isImmune e effect) = active) :
    (recount rules effect).Brings e
      (some ⟨live.serial, count, active, live.count != count, live.active != active⟩)
      (e.storeCount effect count active) := by
  unfold recount
  refine .bind (.entity e) ?_
  rw [found]
  dsimp only
  rw [if_neg (Nat.not_le.2 bounded), counted]
  refine .bind (.consulted e) ?_
  rw [applies]
  exact .bind (.modifyEntity _ e) (.pure _ _)

end

structure Settled (rules : Rulebook π) (saved : Entity π) (touched : StatName → Prop)
    (d : EffectDefinition π) (count : UInt32) (e e' : Entity π) : Prop where
  loading : e'.Loading rules saved touched
  effects : e'.effects = (e.storeCount d.effect count (0 < count)).effects
  own : ∀ stat, e'.share (Entity.ofEffect d.effect) stat =
    (e'.owed rules (rules.readings saved) d.effect stat).map Modifier.kernel
  others : ∀ owns : Option SourceTag → Bool, owns (some (SourceTag.ofEffect d.effect)) = false →
    ∀ stat, e'.share owns stat = e.share owns stat

section

variable (plain : rules.statRules = ∅)
  (idle : ∀ stat, ¬touched stat → saved.modifiers.get stat = [])
  (announces : Restful rules nested) {d : EffectDefinition π}
  (registered : rules.effects.get? d.effect = some d)
  (templates : ∀ t ∈ d.modifiers, t.duration.Steady touched ∧ touched t.stat)

include plain idle announces registered templates

/-- Where the modifiers of an effect need not be applied anew, they have to be those that are due. -/
theorem settleModifiers_brings (loading : e.Loading rules saved touched)
    (lives : e.effects.contains d.effect = true)
    (latest : ∀ effect, e.effects.contains effect = true → ¬d.effect < effect)
    {v : Verdict} (holds : v.holds e d.effect = true) {due : List (Modifier π)}
    (whole : (if v.active then d.scaled v.count else []) = due)
    (kept : v.renews d = false → Renewing rules saved touched d.effect due e e) :
    ∃ e', (settleModifiers nested rules d.effect v).Brings e true e' ∧
      Renewing rules saved touched d.effect due e e' := by
  subst whole
  unfold settleModifiers
  rw [registered]
  dsimp only
  split
  · obtain ⟨e', brings, renewing⟩ := renewModifiers_brings plain idle announces loading lives
      latest templates v.active v.count
    have still : v.holds e' d.effect = true := by
      unfold Verdict.holds at holds ⊢
      rwa [renewing.effects]
    refine ⟨e', brings.bind (.bind (.entity e') ?_), renewing⟩
    rw [still]
    exact .pure true e'
  · rename_i stays
    exact ⟨e, .pure true e, kept (Bool.eq_false_iff.2 stays)⟩

theorem settle_brings (mortal : rules.immunity = none) (silent : d.Silent)
    (loading : e.Loading rules saved touched)
    (latest : ∀ effect, e.effects.contains effect = true → ¬d.effect < effect)
    {live : LiveEffect π} (found : e.effects.get? d.effect = some live)
    (finished : live.held ≠ []) (bounded : live.activeSum < UInt32.size)
    (drained : live.activeSum = 0 → ∀ s ∈ live.held, s.isSourced = true)
    (served : ∀ stat, e.share (Entity.ofEffect d.effect) stat =
      (e.owed rules (rules.readings saved) d.effect stat).map Modifier.kernel) :
    ∃ e', (settle nested rules d.effect).Brings e () e' ∧
      Settled rules saved touched d live.activeSum.toUInt32 e e' := by
  generalize counted : live.activeSum.toUInt32 = count
  let v : Verdict :=
    ⟨live.serial, count, 0 < count, live.count != count, live.active != (0 < count : Bool)⟩
  let stored := e.storeCount d.effect count (0 < count)
  have there : stored.effects.get? d.effect =
      some { live with count := count, active := 0 < count } :=
    Entity.get?_storeCount found ..
  have lives (effect : EffectName) :
      stored.effects.contains effect = e.effects.contains effect :=
    Entity.contains_modifyEffect ..
  have started : stored.Loading rules saved touched :=
    loading.quiet (loading.tidy.storeCount _ _ _) rfl rfl (fun effect => (lives effect).trans)
      fun owner c gate bears => .inl (Entity.sheds_storeCount e _ _ _ owner c gate bears).1
  have holds : v.holds stored d.effect = true := (holds_iff there).2 ⟨rfl, rfl, rfl⟩
  -- What need not be renewed was due before the count was stored, and is due still.
  have kept (stays : v.renews d = false) :
      Renewing rules saved touched d.effect (stored.due d) stored stored := by
    have same : stored.due d = e.due d := by
      rw [due_of_live there, due_of_live found]
      exact due_of_not_renews (v := v) rfl rfl stays
    refine ⟨started, rfl, fun stat => ?_, fun _ _ _ => rfl⟩
    have unmoved : stored.share (Entity.ofEffect d.effect) stat =
        e.share (Entity.ofEffect d.effect) stat := Entity.share_of_modifiers rfl
    rw [unmoved, served, Entity.owed_of_registered registered, same]
  obtain ⟨e', renew, renewing⟩ := settleModifiers_brings plain idle announces registered templates
    started ((lives d.effect).trans (by unfold Table.contains; rw [found]; rfl))
    (fun effect live => latest effect ((lives effect).symm.trans live)) holds
    (due_of_live there).symm kept
  have ends : (settleEnd nested rules d.effect v).Brings e' () e' := by
    rw [← renewing.effects] at there
    refine settleEnd_brings there finished fun zero => drained ?_
    have exact : count.toNat = live.activeSum := by
      rw [← counted]
      exact UInt32.toNat_ofNat_of_lt' bounded
    rw [← exact]
    exact congrArg UInt32.toNat zero
  refine ⟨e', ?_, renewing.loading, renewing.effects, fun stat => ?_, fun owns others stat => ?_⟩
  · unfold settle
    exact (recount_brings found bounded counted (applies_of_mortal mortal e d.effect count)).bind
      ((settleFlip_brings registered silent.unhooked holds).bind (renew.bind ends))
  · rw [renewing.own, Entity.owed_of_registered registered]
    unfold Entity.due
    rw [renewing.effects]
  · exact (renewing.others owns others stat).trans (Entity.share_of_modifiers rfl)

end

end Engine

end StatusEffects
