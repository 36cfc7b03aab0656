import StatusEffects.Proofs.Subscriptions

/-!
No change is missed by those who listen.

For each stat and each effect there is the entity that the listeners saw last. Between calls, and
whenever nothing is owed to them, it agrees with the entity as it is. A move that changes a stat or
flips an effect breaks the agreement, and the notice that follows it restores it, whatever else
happened in between.
-/

set_option autoImplicit false

namespace StatusEffects

variable {π : Type}

/-! ### What listeners saw -/

def Occurrence.statSeen? (stat : StatName) : Occurrence π → Option (Entity π)
  | .statChanged name seen => if name = stat then some seen else none
  | _ => none

def Occurrence.effectSeen? (effect : EffectName) : Occurrence π → Option (Entity π)
  | .effectChanged name seen => if name = effect then some seen else none
  | _ => none

theorem Occurrence.statSeen?_eq_some {stat : StatName} {o : Occurrence π} {seen : Entity π} :
    o.statSeen? stat = some seen ↔ o = .statChanged stat seen := by
  constructor
  · intro sees
    unfold statSeen? at sees
    split at sees
    · split at sees
      · rename_i same
        rw [same, Option.some.inj sees]
      · cases sees
    · cases sees
  · rintro rfl
    exact if_pos rfl

theorem Occurrence.effectSeen?_eq_some {effect : EffectName} {o : Occurrence π} {seen : Entity π} :
    o.effectSeen? effect = some seen ↔ o = .effectChanged effect seen := by
  constructor
  · intro sees
    unfold effectSeen? at sees
    split at sees
    · split at sees
      · rename_i same
        rw [same, Option.some.inj sees]
      · cases sees
    · cases sees
  · rintro rfl
    exact if_pos rfl

/-- The entity as listeners saw it last, or as it was at the start if they were not called. -/
def lastSeen (sees : Occurrence π → Option (Entity π)) (start : Entity π)
    (happened : List (Occurrence π)) : Entity π :=
  (happened.findSome? sees).getD start

theorem lastSeen_append (sees : Occurrence π → Option (Entity π)) (start : Entity π)
    (later earlier : List (Occurrence π)) :
    lastSeen sees start (later ++ earlier) =
      lastSeen sees (lastSeen sees start earlier) later := by
  unfold lastSeen
  rw [List.findSome?_append]
  cases later.findSome? sees with
  | none => rfl
  | some seen => rfl

/-- Nobody was called. -/
theorem lastSeen_of_unseen {sees : Occurrence π → Option (Entity π)} {happened : List (Occurrence π)}
    (unseen : ∀ o ∈ happened, sees o = none) (start : Entity π) :
    lastSeen sees start happened = start := by
  unfold lastSeen
  rw [List.findSome?_eq_none_iff.2 unseen]
  rfl

/-- What happened from one entity to the next left the listeners with what is true now. -/
structure Informed (start : Entity π) (happened : List (Occurrence π)) (now : Entity π) : Prop where
  stats : ∀ stat, (lastSeen (Occurrence.statSeen? stat) start happened).SameAt now stat
  effects : ∀ effect,
    now.hasEffect effect = (lastSeen (Occurrence.effectSeen? effect) start happened).hasEffect effect

variable {e₁ e₂ e₃ : Entity π} {before after : List (Occurrence π)}

theorem Informed.refl (e : Entity π) : Informed e [] e := ⟨fun stat => .refl e stat, fun _ => rfl⟩

/-- Those who were called start from what they saw, whatever was there before. -/
theorem Informed.stats_from (informed : Informed e₂ after e₃) {stat : StatName}
    (same : (after.findSome? (Occurrence.statSeen? stat)).isSome = false → e₁.SameAt e₂ stat) :
    (lastSeen (Occurrence.statSeen? stat) e₁ after).SameAt e₃ stat := by
  have seen := informed.stats stat
  unfold lastSeen at seen ⊢
  cases saw : after.findSome? (Occurrence.statSeen? stat) with
  | none =>
      rw [saw] at seen same
      exact (same rfl).trans seen
  | some _ =>
      rw [saw] at seen
      exact seen

theorem Informed.effects_from (informed : Informed e₂ after e₃) {effect : EffectName}
    (same : e₂.hasEffect effect = e₁.hasEffect effect) :
    e₃.hasEffect effect =
      (lastSeen (Occurrence.effectSeen? effect) e₁ after).hasEffect effect := by
  have seen := informed.effects effect
  unfold lastSeen at seen ⊢
  cases saw : after.findSome? (Occurrence.effectSeen? effect) with
  | none =>
      rw [saw] at seen
      exact seen.trans same
  | some _ =>
      rw [saw] at seen
      exact seen

theorem Informed.trans (first : Informed e₁ before e₂) (second : Informed e₂ after e₃) :
    Informed e₁ (after ++ before) e₃ := by
  refine ⟨fun stat => ?_, fun effect => ?_⟩
  · rw [lastSeen_append]
    exact second.stats_from fun _ => first.stats stat
  · rw [lastSeen_append]
    exact second.effects_from (first.effects effect)

/-- What does not change the entity informs if those who are called see it as it is. -/
theorem Informed.mark (e : Entity π) {o : Occurrence π}
    (sees : ∀ seen, o.seen? = some seen → seen = e) : Informed e [o] e := by
  constructor
  · intro stat
    unfold lastSeen
    cases saw : [o].findSome? (Occurrence.statSeen? stat) with
    | none => exact .refl e stat
    | some seen =>
        obtain ⟨o', member, shown⟩ := List.exists_of_findSome?_eq_some saw
        rw [List.mem_singleton.1 member, Occurrence.statSeen?_eq_some] at shown
        subst shown
        rw [Option.getD_some, sees seen rfl]
        exact .refl e stat
  · intro effect
    unfold lastSeen
    cases saw : [o].findSome? (Occurrence.effectSeen? effect) with
    | none => rfl
    | some seen =>
        obtain ⟨o', member, shown⟩ := List.exists_of_findSome?_eq_some saw
        rw [List.mem_singleton.1 member, Occurrence.effectSeen?_eq_some] at shown
        subst shown
        rw [Option.getD_some, sees seen rfl]

/-! ### What moves change -/

namespace Entity

variable [CustomTrigger π] {rules : Rulebook π} {e e' : Entity π} {stats : List StatName}
  {effects : List EffectName}

omit [CustomTrigger π] in
theorem hasEffect_setCondition {effect : EffectName} (owner : Owner) (c : Condition π) :
    (e.setCondition owner c).hasEffect effect = e.hasEffect effect := by
  cases owner with
  | modifier stat id => rfl
  | stack name id => exact hasEffect_modifyEffect fun _ _ => rfl
  | custom name serial index =>
      refine hasEffect_modifyEffect fun live _ => ?_
      split
      · rfl
      · rfl

/-- A move changes no stat but those that it owes to the listeners. -/
theorem Move.sameAt (move : e.Move rules stats effects e') (tidy : e.Tidy) {stat : StatName}
    (other : stat ∉ stats) : e.SameAt e' stat := by
  cases move with
  | store name value =>
      have different : stat ≠ name := fun same => other (List.mem_singleton.2 same)
      exact ⟨Table.get?_insert_of_ne _ _ different, rfl⟩
  | @addModifier m new =>
      have different : stat ≠ m.stat := fun same => other (List.mem_singleton.2 same)
      refine ⟨rfl, ?_⟩
      change ((e.modifiers.insert rules.operators m).get stat).map Modifier.gist = _
      rw [ModifierLists.get_insert, if_neg different]
  | @updateModifier name id m _ found owed =>
      cases changed : m.refresh.2 with
      | true =>
          refine sameAt_updateModifier ?_
          rintro rfl
          exact other (owed changed)
      | false =>
          rw [Modifier.refresh_eq_self changed, updateModifier_self found]
          exact .refl e stat
  | dropModifier dropped =>
      exact sameAt_dropModifier? dropped fun same => other (List.mem_singleton.2 same)
  | dropModifiersOf owed =>
      refine tidy.sameAt_dropModifiersOf fun m member => ?_
      rintro rfl
      exact other (owed m member)
  | stimulate owner stimulus r there => exact sameAt_setCondition e owner _ stat
  | @mergeDuration owner _ _ _ c there merged =>
      exact (sameAt_setCondition e owner c stat).trans (.of_same rfl rfl stat)
  | detachStack detached => exact sameAt_detachStack? detached stat
  | addEffect registered absent r =>
      obtain ⟨values, modifiers⟩ := addEffect_stats e.acquireEffect.2 _ _
      exact .of_same values modifiers stat
  | dropEffect found owed => exact sameAt_dropEffect e _ _ stat
  | _ => exact .of_same rfl rfl stat

/-- A move flips no effect but the one that it owes to the listeners. -/
theorem Move.hasEffect (move : e.Move rules stats effects e') (tidy : e.Tidy) {effect : EffectName}
    (other : effect ∉ effects) : e'.hasEffect effect = e.hasEffect effect := by
  cases move with
  | updateModifier found owed => rfl
  | dropModifier dropped =>
      obtain ⟨_, -, rfl⟩ := Option.map_eq_some_iff.1 dropped
      rfl
  | @dropModifiersOf source _ owed =>
      unfold Entity.hasEffect
      rw [dropModifiersOf_effects]
  | pushStack live new => exact hasEffect_modifyEffect (e := e.takeHandle.2) fun _ _ => rfl
  | updateStack found value => exact hasEffect_modifyEffect fun _ _ => rfl
  | stimulate owner stimulus r there => exact hasEffect_setCondition owner _
  | @mergeDuration owner _ _ _ c there merged => exact hasEffect_setCondition owner c
  | @detachStack name id _ detached =>
      unfold Entity.hasEffect
      rw [tidy.effects_detachStack? detached, Table.get?_modify]
      split
      · cases e.effects.get? effect <;> rfl
      · rfl
  | setStacks found drawn => exact hasEffect_modifyEffect fun _ _ => rfl
  | @storeCount name live _ found count active owed =>
      unfold Entity.hasEffect Entity.storeCount
      rw [get?_modifyEffect]
      split
      · rename_i here
        subst here
        rw [found, Option.map_some, Option.any_some, Option.any_some]
        exact (Classical.byContradiction fun changes => other (owed fun same => changes same.symm))
      · rfl
  | @addEffect _ d registered absent r =>
      unfold Entity.hasEffect
      rw [addEffect_effects, Table.get?_insert]
      split
      · rename_i here
        rw [Table.contains, Option.isSome_eq_false_iff, Option.isNone_iff_eq_none] at absent
        rw [here, absent, Option.any_some, tidy.acquireEffect_fst]
        rfl
      · rfl
  | @dropEffect name live _ found owed =>
      unfold Entity.hasEffect
      rw [dropEffect_effects, Table.get?_erase]
      split
      · rename_i here
        subst here
        rw [found, Option.any_none, Option.any_some]
        exact (Bool.eq_false_iff.2 fun active => other (owed active)).symm
      · rfl
  | _ => rfl

theorem Moves.sameAt (moves : e.Moves rules stats e') (attended : e.Attended) {stat : StatName}
    (other : stat ∉ stats) : e.SameAt e' stat := by
  induction moves with
  | refl => exact .refl e stat
  | step before move listed ih =>
      exact ih.trans (move.sameAt (before.attended attended).tidy fun owed => other (listed _ owed))

theorem Moves.hasEffect (moves : e.Moves rules stats e') (attended : e.Attended)
    (effect : EffectName) : e'.hasEffect effect = e.hasEffect effect := by
  induction moves with
  | refl => rfl
  | step before move listed ih =>
      exact (move.hasEffect (before.attended attended).tidy List.not_mem_nil).trans ih

end Entity

/-! ### Steps that leave nothing owed -/

variable [CustomTrigger π] {rules : Rulebook π}

def Informs (w w' : World π) : Prop :=
  w.entity.Attended → w'.entity.Attended ∧
    ∃ happened, w'.trace = happened ++ w.trace ∧ Informed w.entity happened w'.entity

theorem Informs.steady : Act.Steady (Informs (π := π)) where
  refl w attended := ⟨attended, [], rfl, .refl w.entity⟩
  trans first second attended := by
    obtain ⟨attended₂, before, grown, informed⟩ := first attended
    obtain ⟨attended₃, after, grown', informed'⟩ := second attended₂
    refine ⟨attended₃, after ++ before, ?_, informed.trans informed'⟩
    rw [grown', grown, List.append_assoc]

/-- Recording something that shows the entity as it is leaves nothing owed. -/
theorem Informs.mark (w : World π) {o : Occurrence π}
    (sees : ∀ seen, o.seen? = some seen → seen = w.entity) :
    Informs w { w with trace := o :: w.trace } :=
  fun attended => ⟨attended, [o], rfl, .mark w.entity sees⟩

omit [CustomTrigger π] in
/-- Nobody listens to what happens on the side. -/
theorem Asides.unseen {asides : List (Occurrence π)} (aside : Asides asides) (start : Entity π) :
    (∀ stat, lastSeen (Occurrence.statSeen? stat) start asides = start) ∧
      ∀ effect, lastSeen (Occurrence.effectSeen? effect) start asides = start := by
  refine ⟨fun stat => lastSeen_of_unseen (fun o member => ?_) start,
    fun effect => lastSeen_of_unseen (fun o member => ?_) start⟩
  · refine Option.eq_none_iff_forall_ne_some.2 fun seen sees => ?_
    rw [Occurrence.statSeen?_eq_some] at sees
    subst sees
    cases aside _ member
  · refine Option.eq_none_iff_forall_ne_some.2 fun seen sees => ?_
    rw [Occurrence.effectSeen?_eq_some] at sees
    subst sees
    cases aside _ member

/-- A chain of announcements informs of every stat in it. -/
theorem Told.informs {stats : List StatName} {w w' : World π} (told : Told Informs stats w w')
    (attended : w.entity.Attended) : w'.entity.Attended ∧
      ∃ happened, w'.trace = happened ++ w.trace ∧ Informed w.entity happened w'.entity ∧
        ∀ stat ∈ stats, (happened.findSome? (Occurrence.statSeen? stat)).isSome = true := by
  induction stats generalizing w with
  | nil =>
      rw [told]
      exact ⟨attended, [], rfl, .refl w.entity, fun _ member => (List.not_mem_nil member).elim⟩
  | cons stat rest ih =>
      obtain ⟨w₁, first, later⟩ := told
      obtain ⟨attended₁, before, grown, informed⟩ := first attended
      obtain ⟨attended', after, grown', informed', heard⟩ := ih later attended₁
      have marked : Informed w.entity [.statChanged stat w.entity] w.entity :=
        .mark w.entity fun seen same => (Option.some.inj same).symm
      refine ⟨attended', after ++ (before ++ [.statChanged stat w.entity]), ?_,
        (marked.trans informed).trans informed', fun other member => ?_⟩
      · rw [grown', grown]
        simp
      · rw [List.findSome?_append, Option.isSome_or, Bool.or_eq_true]
        rcases List.mem_cons.1 member with rfl | member
        · right
          rw [List.findSome?_append, Option.isSome_or, Bool.or_eq_true]
          right
          rw [List.findSome?_singleton, Occurrence.statSeen?_eq_some.2 rfl]
          rfl
        · exact .inl (heard other member)

/-- Moves and the announcements that they owe leave nothing owed. -/
theorem Informs.told {w w' : World π} {stats : List StatName} {e : Entity π}
    {asides : List (Occurrence π)} (moves : w.entity.Moves rules stats e) (aside : Asides asides)
    (told : Told Informs stats { w with entity := e, trace := asides ++ w.trace } w') :
    Informs w w' := by
  intro attended
  obtain ⟨attended', happened, grown, informed, heard⟩ := told.informs (moves.attended attended)
  obtain ⟨noStat, noEffect⟩ := aside.unseen w.entity
  refine ⟨attended', happened ++ asides, ?_, fun stat => ?_, fun effect => ?_⟩
  · rw [grown, List.append_assoc]
  · rw [lastSeen_append, noStat]
    refine informed.stats_from fun silent => moves.sameAt attended fun owed => ?_
    rw [heard stat owed] at silent
    cases silent
  · rw [lastSeen_append, noEffect]
    exact informed.effects_from (moves.hasEffect attended effect)

/-- A flip of an effect and the call of its listeners leave nothing owed. -/
theorem Informs.flipped {w w' : World π} {effect : EffectName} {e : Entity π}
    {asides : List (Occurrence π)} (move : w.entity.Move rules [] [effect] e) (aside : Asides asides)
    (after : Informs { w with entity := e, trace := asides ++ w.trace } w') :
    Informs w { w' with trace := .effectChanged effect w'.entity :: w'.trace } := by
  intro attended
  obtain ⟨attended', happened, grown, informed⟩ := after (move.attended attended)
  obtain ⟨noStat, noEffect⟩ := aside.unseen w.entity
  refine ⟨attended', [.effectChanged effect w'.entity] ++ (happened ++ asides), ?_, fun stat => ?_,
    fun name => ?_⟩
  · rw [List.append_assoc, List.append_assoc, ← grown]
    rfl
  · have unseen : ∀ o ∈ [Occurrence.effectChanged effect w'.entity], o.statSeen? stat = none :=
      List.forall_mem_singleton.2 rfl
    rw [lastSeen_append, lastSeen_append, noStat, lastSeen_of_unseen unseen]
    exact informed.stats_from fun _ => move.sameAt attended.tidy List.not_mem_nil
  · rw [lastSeen_append, lastSeen_append, noEffect]
    by_cases same : effect = name
    · have seen : (Occurrence.effectChanged effect w'.entity).effectSeen? name = some w'.entity :=
        if_pos same
      simp [lastSeen, seen]
    · have unseen : ∀ o ∈ [Occurrence.effectChanged effect w'.entity], o.effectSeen? name = none :=
        List.forall_mem_singleton.2 (if_neg same)
      rw [lastSeen_of_unseen unseen]
      refine informed.effects_from (move.hasEffect attended.tidy fun owed => ?_)
      exact same (List.mem_singleton.1 owed).symm

theorem Engine.admits_informs (rules : Rulebook π) : Engine.Admits rules Informs where
  steady := Informs.steady
  ignored mark plain w := by
    rw [Act.yields_record]
    exact .mark w (plain w.entity).2
  told := Informs.told
  flipped := Informs.flipped
  running w hooks attended := ⟨attended, [], rfl, .refl w.entity⟩
  called _ c reply w := by
    rw [Act.yields_record]
    exact .mark w fun _ same => (Option.some.inj same).symm
  passes {nested} serves reacts delta w := by
    have timeless : Act.Timeless (Informs (π := π)) := by
      intro mark ofTime w
      rw [Act.yields_record]
      exact .mark w (ofTime w.entity).2
    have ticks (owner : Owner) : (stimulate rules owner (.time delta)).Keeps Informs := by
      refine fun w => (stimulate_stores owner _ w).mono fun changed w' stored => ?_
      rcases stored with ⟨-, -, rfl⟩ | ⟨there, r, e, rfl, rfl⟩
      · exact Informs.steady.refl w'
      · have stimulated : w.entity.Move rules [] [] _ := .stimulate owner (.time delta) r there
        have moved := Informs.told stimulated.moves
          (.cons (o := .consulted (w.entity.setCondition owner .absent)) rfl .nil) rfl
        exact Informs.steady.trans moved (.mark _ (Act.OfTime.ticked owner delta _).2)
    refine passTime_keeps Informs.steady timeless (fun change walk w attended => ?_)
      (fun owner => expose_keeps Informs.steady (ticks owner) (reacts owner)) w
    exact ⟨attended.walks walk, [], rfl, fun stat => .of_same rfl rfl stat, fun _ => rfl⟩

/-! ### Changes between calls -/

/-- If a stat, or what is calculated for it, is not what it was before a call, the stat was announced
in that call, and those who were told last saw the stat and all that is calculated for it as they are
afterwards. If an effect began or ceased to apply, its listeners were called, and those who were
called last saw that it does or does not. -/
theorem changes_announced (plain : rules.statRules = ∅) {snapshots : Snapshot → Prop}
    {calls : Entity π → Call π → Prop} {levels : Nat} {c : Call π} {reply : c.Reply}
    {w w' : World π} (reached : Reached rules snapshots calls w)
    (returns : Engine.perform rules levels c w = .ok reply w') :
    ∃ happened, w'.trace = happened ++ w.trace ∧
      (∀ stat, (rules.stat w'.entity stat ≠ rules.stat w.entity stat ∨ ∃ selection,
          rules.calculate w'.entity stat selection ≠ rules.calculate w.entity stat selection) →
        ∃ later seen earlier, happened = later ++ .statChanged stat seen :: earlier ∧
          (∀ other, .statChanged stat other ∉ later) ∧
          rules.stat seen stat = rules.stat w'.entity stat ∧ ∀ selection,
            rules.calculate seen stat selection = rules.calculate w'.entity stat selection) ∧
      ∀ effect, w'.entity.hasEffect effect ≠ w.entity.hasEffect effect →
        ∃ later seen earlier, happened = later ++ .effectChanged effect seen :: earlier ∧
          (∀ other, .effectChanged effect other ∉ later) ∧
          seen.hasEffect effect = w'.entity.hasEffect effect := by
  obtain ⟨-, happened, grown, informed⟩ :=
    (Engine.admits_informs rules).perform levels c w reply w' returns
      reached.attended.1
  refine ⟨happened, grown, fun stat changed => ?_, fun effect changed => ?_⟩
  · have same := informed.stats stat
    unfold lastSeen at same
    cases saw : happened.findSome? (Occurrence.statSeen? stat) with
    | none =>
        rw [saw] at same
        obtain ⟨stored, calculated⟩ := Rulebook.calculate_of_sameAt plain same
        rcases changed with differs | ⟨selection, differs⟩
        · exact absurd stored.symm differs
        · exact absurd (calculated selection).symm differs
    | some seen =>
        rw [saw] at same
        obtain ⟨later, o, earlier, rfl, shown, silent⟩ := List.findSome?_eq_some_iff.1 saw
        rw [Occurrence.statSeen?_eq_some] at shown
        subst shown
        refine ⟨later, seen, earlier, rfl, fun other member => ?_,
          Rulebook.calculate_of_sameAt plain same⟩
        have told := silent _ member
        rw [Occurrence.statSeen?_eq_some.2 rfl] at told
        cases told
  · have same := informed.effects effect
    unfold lastSeen at same
    cases saw : happened.findSome? (Occurrence.effectSeen? effect) with
    | none =>
        rw [saw] at same
        exact absurd same changed
    | some seen =>
        rw [saw] at same
        obtain ⟨later, o, earlier, rfl, shown, silent⟩ := List.findSome?_eq_some_iff.1 saw
        rw [Occurrence.effectSeen?_eq_some] at shown
        subst shown
        refine ⟨later, seen, earlier, rfl, fun other member => ?_, same.symm⟩
        have told := silent _ member
        rw [Occurrence.effectSeen?_eq_some.2 rfl] at told
        cases told

def boon : EffectDefinition Empty :=
  { EffectDefinition.ofName "boon" with modifiers := [.ofParts "health" .add 10] }

def boonRules : Rulebook Empty :=
  ((Rulebook.builtin.registerEffect boon).toOption).getD .builtin

/-- The call that makes the effect begin announces the stat, and its listeners are called. -/
theorem boon_announced : ∃ w : World Empty,
    (∃ reply, Engine.perform boonRules 6 (.addStack "boon" (.ofValue 1) none) (.ofEntity .new) =
      .ok reply w) ∧
    (∃ seen, .statChanged "health" seen ∈ w.trace ∧ boonRules.calculate seen "health" .standard =
      boonRules.calculate w.entity "health" .standard) ∧
    ∃ seen, .effectChanged "boon" seen ∈ w.trace ∧ seen.hasEffect "boon" = true := by
  have made : ((Engine.performAll boonRules 6 [.addStack "boon" (.ofValue 1) none]
      (.ofEntity .new)).any fun w => w.entity.hasEffect "boon" &&
        boonRules.calculate w.entity "health" .standard ≠
          boonRules.calculate Entity.new "health" .standard) = true := by
    decide +kernel
  obtain ⟨w, run, checked⟩ := (Option.any_eq_true ..).1 made
  rw [Bool.and_eq_true, decide_eq_true_eq] at checked
  obtain ⟨active, raised⟩ := checked
  obtain ⟨reply, returns⟩ := Engine.perform_of_performAll run
  have start : Reached boonRules (fun _ => True) (fun _ _ => True) (.ofEntity .new) := .new
  obtain ⟨happened, grown, stats, effects⟩ := changes_announced rfl start returns
  have same : w.trace = happened := grown.trans (List.append_nil _)
  refine ⟨w, ⟨reply, returns⟩, ?_, ?_⟩
  · obtain ⟨later, seen, earlier, split, -, -, calculated⟩ :=
      stats "health" (.inr ⟨.standard, raised⟩)
    exact ⟨seen, by simp [same, split], calculated .standard⟩
  · have dormant : (Entity.new : Entity Empty).hasEffect "boon" = false := rfl
    obtain ⟨later, seen, earlier, split, -, kept⟩ := effects "boon" fun unchanged =>
      Bool.noConfusion (active.symm.trans (unchanged.trans dormant))
    exact ⟨seen, by simp [same, split], kept.trans active⟩

end StatusEffects
