import StatusEffects.Proofs.Renewal
import StatusEffects.Proofs.StackCaps

/-!
Without hooks, the modifiers of an effect mirror it unless a renewal that was overtaken went on.

At any moment the modifiers on an entity are those that renewals applied, save those that were taken
out by handle. The latest renewal is the one that counts: between calls it has come to its end, and
what it applied is what is due. So the entity mirrors the effect exactly if the modifiers of earlier
renewals that came after it are gone.
-/

set_option autoImplicit false

namespace StatusEffects

variable {π : Type} {rules : Rulebook π} {d : EffectDefinition π} {w w' : World π}

/-! ### Whose modifiers calls are about -/

theorem SourceTag.ne_of_unmarked {source : Option SourceTag}
    (unmarked : ¬source.any SourceTag.isOfEffect) {effect : EffectName} :
    source ≠ some (SourceTag.ofEffect effect) := by
  rintro rfl
  exact unmarked (SourceTag.isOfEffect_ofEffect effect)

/-- A call neither hands in nor takes away modifiers in the name of an effect. -/
def Call.Unmarked : Call π → Prop
  | .addModifier m source =>
    ¬m.source.any SourceTag.isOfEffect ∧ ¬source.any SourceTag.isOfEffect
  | .removeModifiersOf source => ¬(some source).any SourceTag.isOfEffect
  | _ => True

def Snapshot.Unmarked (s : Snapshot) : Prop :=
  ∀ form ∈ s.modifiers, ¬form.source.any SourceTag.isOfEffect

/-! ### Keeping account -/

/-- The modifiers of an effect, and those that were taken out, are the ones that renewals
applied. -/
structure Accounted (d : EffectDefinition π) (w : World π) : Prop where
  tidy : w.entity.Tidy
  balance : ∀ stat, ((w.entity.applied d.effect stat).map Modifier.look ++
      (renewal d.effect w.trace).lost.filter fun m => m.stat = stat).Perm
    (((renewal d.effect w.trace).own ++ (renewal d.effect w.trace).late).filter fun m =>
      m.stat = stat)

/-- The latest renewal of an effect is at its end and has applied what is due. -/
structure Concluded (d : EffectDefinition π) (w : World π) : Prop where
  ended : (renewal d.effect w.trace).running = false
  own : (renewal d.effect w.trace).own.Perm ((w.entity.due d).map Modifier.look)

/-- A renewal that still has to apply some modifiers has applied the others that are due, unless a
later one has concluded. -/
def Underway (d : EffectDefinition π) (coming : List (Modifier π)) (w : World π) : Prop :=
  Concluded d w ∨ (renewal d.effect w.trace).running = true ∧
    ((renewal d.effect w.trace).own ++ coming.map Modifier.look).Perm
      ((w.entity.due d).map Modifier.look)

structure Undisturbed (d : EffectDefinition π) (w w' : World π) : Prop where
  running : (renewal d.effect w'.trace).running = (renewal d.effect w.trace).running
  own : (renewal d.effect w'.trace).own = (renewal d.effect w.trace).own
  due : w'.entity.due d = w.entity.due d

/-- The effect has been counted: what is due follows from the verdict, and it is what was due before
if no renewal is called for. -/
structure Counted (d : EffectDefinition π) (v : Engine.Verdict) (w w' : World π) : Prop where
  accounted : Accounted d w'
  holds : v.holds w'.entity d.effect = true
  same : renewal d.effect w'.trace = renewal d.effect w.trace
  due : w'.entity.due d = if v.active then d.scaled v.count else []
  stays : v.renews d = false → w'.entity.due d = w.entity.due d

theorem Undisturbed.refl (w : World π) : Undisturbed d w w := ⟨rfl, rfl, rfl⟩

theorem Undisturbed.trans {w₁ w₂ w₃ : World π} (first : Undisturbed d w₁ w₂)
    (second : Undisturbed d w₂ w₃) : Undisturbed d w₁ w₃ where
  running := second.running.trans first.running
  own := second.own.trans first.own
  due := second.due.trans first.due

theorem Undisturbed.concluded (same : Undisturbed d w w') (before : Concluded d w) :
    Concluded d w' where
  ended := same.running.trans before.ended
  own := by
    rw [same.own, same.due]
    exact before.own

/-- A step keeps account of the modifiers of an effect. If it disturbs their renewal, it brings a
later one to its end. -/
def Faithful (d : EffectDefinition π) (w w' : World π) : Prop :=
  Accounted d w → Accounted d w' ∧ (Undisturbed d w w' ∨ Concluded d w')

theorem Faithful.steady (d : EffectDefinition π) : Act.Steady (Faithful d) where
  refl w := fun before => ⟨before, .inl (.refl w)⟩
  trans := by
    intro w₁ w₂ w₃ first second before
    obtain ⟨accounted₂, either₂⟩ := first before
    obtain ⟨accounted₃, either₃⟩ := second accounted₂
    refine ⟨accounted₃, ?_⟩
    rcases either₃ with same₃ | concluded₃
    · rcases either₂ with same₂ | concluded₂
      · exact .inl (same₂.trans same₃)
      · exact .inr (same₃.concluded concluded₂)
    · exact .inr concluded₃

/-- What a renewal has concluded, faithful steps do not undo. -/
theorem Faithful.concluded (faithful : Faithful d w w') (accounted : Accounted d w)
    (concluded : Concluded d w) : Accounted d w' ∧ Concluded d w' := by
  obtain ⟨accounted', either⟩ := faithful accounted
  refine ⟨accounted', ?_⟩
  rcases either with same | concluded'
  · exact same.concluded concluded
  · exact concluded'

theorem Faithful.underway (faithful : Faithful d w w') (accounted : Accounted d w)
    {coming : List (Modifier π)} (before : Underway d coming w) :
    Accounted d w' ∧ Underway d coming w' := by
  obtain ⟨accounted', either⟩ := faithful accounted
  refine ⟨accounted', ?_⟩
  rcases either with same | concluded'
  · rcases before with concluded | ⟨running, applied⟩
    · exact .inl (same.concluded concluded)
    · refine .inr ⟨same.running.trans running, ?_⟩
      rw [same.own, same.due]
      exact applied
  · exact .inl concluded'

/-- A modifier that a renewal applies is on both sides of the account. -/
theorem Accounted.apply (before : Accounted d w) {m : Modifier π} {e : Entity π}
    {trace : List (Occurrence π)} (tidy : e.Tidy)
    (applied : ∀ stat, ((e.applied d.effect stat).map Modifier.look).Perm
      (if m.stat = stat then m.look :: (w.entity.applied d.effect stat).map Modifier.look
        else (w.entity.applied d.effect stat).map Modifier.look))
    (entered : renewal d.effect trace = (renewal d.effect w.trace).apply m) :
    Accounted d { w with entity := e, trace := trace } := by
  refine ⟨tidy, fun stat => ?_⟩
  have here := applied stat
  have balance := before.balance stat
  have entries := ((renewal d.effect w.trace).apply_perm m).filter fun m => m.stat = stat
  rw [List.filter_cons, Modifier.look_stat] at entries
  rw [entered, Renewal.apply_lost]
  refine ((here.append_right _).trans ?_).trans entries.symm
  by_cases same : m.stat = stat
  · rw [if_pos same, if_pos (decide_eq_true same), List.cons_append]
    exact balance.cons _
  · rw [if_neg same, if_neg fun there => same (of_decide_eq_true there)]
    exact balance

/-! ### Quiet steps -/

/-- A quiet change of the entity, and any records that do not concern the effect. -/
theorem Faithful.of_unmoved (tidy : w.entity.Tidy → w'.entity.Tidy)
    (unmoved : w.entity.Tidy → w.entity.Unmoved d w'.entity)
    (same : renewal d.effect w'.trace = renewal d.effect w.trace) : Faithful d w w' := by
  intro before
  obtain ⟨applied, due⟩ := unmoved before.tidy
  refine ⟨⟨tidy before.tidy, fun stat => ?_⟩, .inl ⟨by rw [same], by rw [same], due⟩⟩
  rw [same]
  exact ((applied stat).append_right _).trans (before.balance stat)

theorem Faithful.of_entity {e : Entity π} (tidy : w.entity.Tidy → e.Tidy)
    (unmoved : w.entity.Tidy → w.entity.Unmoved d e) : Faithful d w { w with entity := e } :=
  .of_unmoved tidy unmoved rfl

theorem Faithful.of_same {e : Entity π} (tidy : w.entity.Tidy → e.Tidy)
    (modifiers : e.modifiers = w.entity.modifiers) (effects : e.effects = w.entity.effects) :
    Faithful d w { w with entity := e } :=
  .of_entity tidy fun _ => .of_same modifiers effects

theorem Faithful.of_record {o : Occurrence π} (unconcerned : o.concerns d.effect = false) :
    Faithful d w { w with trace := o :: w.trace } :=
  .of_unmoved (fun tidy => tidy) (fun _ => .of_same rfl rfl)
    (renewal_cons_of_unconcerned unconcerned _)

namespace Engine

open Act

theorem Faithful.ignored (d : EffectDefinition π) : Ignored (Faithful d) := by
  intro mark plain w
  rw [yields_record]
  exact .of_record (Occurrence.concerns_of_isPlain (plain w.entity).1 _)

theorem Faithful.timeless (d : EffectDefinition π) : Timeless (Faithful d) := by
  intro mark ofTime w
  rw [yields_record]
  exact .of_record (Occurrence.concerns_of_isOfTime (ofTime w.entity).1 _)

theorem faithful_modifyEntity {change : Entity π → Entity π}
    (tidy : ∀ e, e.Tidy → (change e).Tidy) (unmoved : ∀ e : Entity π, e.Unmoved d (change e)) :
    (modifyEntity change).Keeps (Faithful d) := by
  intro w
  rw [yields_modifyEntity]
  exact .of_entity (tidy _) fun _ => unmoved _

theorem faithful_updateEntity {α : Type} {change : Entity π → α × Entity π}
    (tidy : ∀ e, e.Tidy → (change e).2.Tidy) (unmoved : ∀ e : Entity π, e.Unmoved d (change e).2) :
    (updateEntity change).Keeps (Faithful d) := by
  intro w
  rw [yields_updateEntity]
  exact .of_entity (tidy _) fun _ => unmoved _

theorem acquireModifier_faithful :
    (updateEntity (Entity.acquireModifier (π := π))).Keeps (Faithful d) :=
  faithful_updateEntity (fun _ tidy => tidy.acquireModifier) fun _ => .of_same rfl rfl

theorem faithful_of_released (w : World π) (s : Stack π) :
    Faithful d w { w with entity := w.entity.releaseStack s } :=
  .of_same (fun tidy => tidy.releaseStack s) rfl rfl

theorem releaseStack_faithful (s : Stack π) :
    (modifyEntity fun e => e.releaseStack s).Keeps (Faithful d) :=
  faithful_modifyEntity (fun _ tidy => tidy.releaseStack s) fun _ => .of_same rfl rfl

theorem setCondition_faithful (owner : Owner) (c : Condition π) :
    (modifyEntity fun e => e.setCondition owner c).Keeps (Faithful d) :=
  faithful_modifyEntity (fun _ tidy => tidy.setCondition owner c) fun e => .setCondition e owner c

theorem stimulate_faithful [CustomTrigger π] (owner : Owner) (stimulus : Stimulus) :
    (stimulate rules owner stimulus).Keeps (Faithful d) :=
  stimulate_keeps (Faithful.steady d) (Faithful.ignored d) (Faithful.timeless d)
    (setCondition_faithful owner) stimulus

/-! ### Modifiers -/

section

variable {nested : Nested π} (told : ∀ stat, (nested (.announce stat)).Keeps (Faithful d))

include told

omit told in
/-- A modifier that is taken out by its handle is put to the account of what was lost. -/
theorem faithful_of_taken {stat : StatName} {id : Handle} {m : Modifier π} {e : Entity π}
    (found : w.entity.modifiers.find? stat id = some m)
    (dropped : w.entity.dropModifier? stat id = some e) :
    Faithful d w { w with entity := e, trace := .modifierTaken stat id w.entity :: w.trace } := by
  have taken : renewal d.effect (.modifierTaken stat id w.entity :: w.trace) =
      if m.source = some (SourceTag.ofEffect d.effect) then
        { renewal d.effect w.trace with lost := m.look :: (renewal d.effect w.trace).lost }
      else renewal d.effect w.trace := by
    rw [renewal_cons, Renewal.after, found]
  by_cases own : m.source = some (SourceTag.ofEffect d.effect)
  · rw [if_pos own] at taken
    intro before
    have filed : m.look.stat = stat := before.tidy.filed stat m (List.mem_of_find?_eq_some found)
    refine ⟨⟨before.tidy.dropModifier? dropped, fun other => ?_⟩, .inl ⟨?_, ?_, ?_⟩⟩
    · have left : (w.entity.applied d.effect other).Perm _ :=
        Entity.applied_dropModifier? found dropped other
      have balance := before.balance other
      rw [taken]
      dsimp only
      rw [List.filter_cons, filed]
      by_cases here : stat = other
      · rw [if_pos (decide_eq_true here)]
        rw [if_pos ⟨here.symm, own⟩] at left
        exact List.perm_middle.trans (((left.map Modifier.look).symm.append_right _).trans balance)
      · rw [if_neg fun same => here (of_decide_eq_true same)]
        rw [if_neg fun both => here both.1.symm] at left
        exact ((left.map Modifier.look).symm.append_right _).trans balance
    · rw [taken]
    · rw [taken]
    · obtain ⟨_, _, rfl⟩ := Option.map_eq_some_iff.1 dropped
      rfl
  · rw [if_neg own] at taken
    exact .of_unmoved (fun tidy => tidy.dropModifier? dropped)
      (fun _ => .dropModifier? found dropped own) taken

theorem removeModifier_faithful (id : Handle) :
    (removeModifier nested id).Keeps (Faithful d) := by
  intro w
  rw [removeModifier, yields_bind, yields_entity]
  cases w.entity.modifiers.statOf? id with
  | none =>
      rw [yields_pure]
      exact (Faithful.steady d).refl w
  | some stat =>
      rw [yields_bind, yields_record]
      refine removeModifierAt_cases (fun absent => ?_) fun m e found dropped => ?_
      · refine .of_record ?_
        change w.entity.modifiers.find? stat id = none at absent
        rw [Occurrence.concerns, absent, Option.any_none]
      · exact (Faithful.steady d).yields (faithful_of_taken found dropped) (told stat)

theorem removeModifiersOf_faithful {source : SourceTag}
    (other : source ≠ SourceTag.ofEffect d.effect) :
    (removeModifiersOf nested source).Keeps (Faithful d) := by
  have steady := Faithful.steady d
  refine fun w => removeModifiersOf_cases (fun _ => steady.refl w) fun stats _ => ?_
  refine steady.yields (.of_entity (fun tidy => tidy.dropModifiersOf source) fun _ => ?_)
    (steady.forM stats fun stat _ => told stat)
  exact .dropModifiersOf w.entity other

/-- Taking the modifiers of the effect away settles the account of a renewal that applied none. -/
theorem removeModifiersOf_own (tidy : w.entity.Tidy)
    (own : (renewal d.effect w.trace).own = []) (late : (renewal d.effect w.trace).late = [])
    (lost : (renewal d.effect w.trace).lost = []) :
    (removeModifiersOf nested (SourceTag.ofEffect d.effect)).Yields w fun _ w' =>
      Accounted d w' ∧ (Undisturbed d w w' ∨ Concluded d w') := by
  have none (e : Entity π) (tidy : e.Tidy) (gone : ∀ stat, e.applied d.effect stat = []) :
      Accounted d { w with entity := e } := by
    refine ⟨tidy, fun stat => .of_eq ?_⟩
    change (e.applied d.effect stat).map _ ++ (renewal d.effect w.trace).lost.filter _ = _
    rw [gone, own, late, lost]
    rfl
  refine removeModifiersOf_cases (fun empty => ?_) fun stats _ => ?_
  · refine ⟨none w.entity tidy fun stat => ?_, .inl (.refl w)⟩
    unfold Entity.applied
    rw [List.filter_eq_nil_iff]
    intro m member stems
    have listed := ModifierLists.mem_ofSource.2 ⟨⟨stat, member⟩, of_decide_eq_true stems⟩
    rw [empty] at listed
    cases listed
  · have accounted := none _ (tidy.dropModifiersOf (SourceTag.ofEffect d.effect)) fun stat => by
      rw [Entity.applied_dropModifiersOf, if_pos rfl]
    have same : Undisturbed d w
        { w with entity := w.entity.dropModifiersOf (SourceTag.ofEffect d.effect) } :=
      ⟨rfl, rfl, Entity.due_eq (w.entity.dropModifiersOf_effects _)⟩
    have announced := (Faithful.steady d).forM stats fun stat _ => told stat
    refine (announced _).mono fun _ w' faithful => ?_
    obtain ⟨accounted', either⟩ := faithful accounted
    exact ⟨accounted', either.imp_left same.trans⟩

theorem modifierStimulated_faithful (stat : StatName) (id : Handle) :
    (modifierStimulated nested stat id).Keeps (Faithful d) := by
  have steady := Faithful.steady d
  intro w
  have before {m : Modifier π} (found : w.entity.modifiers.find? stat id = some m) : Faithful d w
      { w with entity := w.entity.updateModifier stat id m.refresh.1 } := by
    have handle : m.id = id := of_decide_eq_true (List.find?_some found :)
    refine .of_entity (fun tidy => tidy.updateModifier ?_ handle) fun _ => .updateModifier found
    exact tidy.filed stat m (List.mem_of_find?_eq_some found)
  refine modifierStimulated_cases (fun _ => steady.refl w) (fun _ _ _ => steady.refl w)
    (fun m e found _ unowned there dropped => ?_)
    fun m found _ => steady.yields (before found) (told stat)
  -- What goes has no owner, so it is no modifier of the effect.
  have other : m.refresh.1.source ≠ some (SourceTag.ofEffect d.effect) := by
    intro owned
    rw [Modifier.isSourced, owned] at unowned
    cases unowned
  have gone : Faithful d { w with entity := w.entity.updateModifier stat id m.refresh.1 }
      { w with entity := e } :=
    .of_entity (fun tidy => tidy.dropModifier? dropped) fun _ => .dropModifier? there dropped other
  exact steady.yields (steady.trans (before found) gone) (told stat)

variable [CustomTrigger π]

theorem insertModifier_faithful {m : Modifier π} {source : Option SourceTag}
    (other : m.source ≠ some (SourceTag.ofEffect d.effect))
    (other' : source ≠ some (SourceTag.ofEffect d.effect)) :
    (insertModifier nested rules m source).Keeps (Faithful d) := by
  have steady := Faithful.steady d
  intro w
  have asked : Faithful d w { w with
      entity := w.entity.takeHandle.2, trace := .consulted w.entity.takeHandle.2 :: w.trace } :=
    steady.trans (.of_same Entity.Tidy.takeHandle rfl rfl) (.of_record rfl)
  refine insertModifier_cases (fun m' _ _ _ => ?_) fun m' attached new _ => ?_
  · exact steady.trans asked (.of_same (fun tidy => tidy.releaseModifier _) rfl rfl)
  · refine steady.yields (.of_unmoved (fun tidy => tidy.addNewModifier _ new) (fun _ => ?_) rfl)
      (told _)
    have numbered : Entity.Unmoved d w.entity w.entity.takeHandle.2 := .of_same rfl rfl
    refine numbered.trans (.addModifier _ _ ?_)
    rw [← attached, Modifier.attach_source]
    split
    · exact other
    · exact other'

/-- A modifier of the effect is put to the account of its latest renewal or of an overtaken one, and
then announced. -/
theorem renewOne_yields (before : Accounted d w) (template : Modifier π) (count : UInt32) :
    Act.Yields (do
      let m := (← Act.updateEntity Entity.acquireModifier).configure template
      let m := { m with value := m.value * count.toFloat32 }
      Act.record (.renewed d.effect m)
      let _ ← insertModifier nested rules m (SourceTag.ofEffect d.effect)) w fun _ w' =>
        ∃ w₁, Faithful d w₁ w' ∧ Accounted d w₁ ∧ w₁.entity.due d = w.entity.due d ∧
          renewal d.effect w₁.trace = (renewal d.effect w.trace).apply (template.times count) := by
  simp only [yields_bind, yields_updateEntity, yields_record, yields_pure]
  rw [before.tidy.acquireModifier_fst]
  have source {m' : Modifier π} {id : Handle} {r : Readings}
      (attached : ({ Modifier.blank.configure template with
        value := (Modifier.blank.configure template).value * count.toFloat32, id := id } :
          Modifier π).attach r (some (SourceTag.ofEffect d.effect)) = m') :
      m'.source = some (SourceTag.ofEffect d.effect) := by
    rw [← attached, Modifier.attach_source]
    exact if_neg Bool.false_ne_true
  have entered : renewal d.effect (.consulted w.entity.acquireModifier.2.takeHandle.2 ::
      .renewed d.effect { Modifier.blank.configure template with
        value := (Modifier.blank.configure template).value * count.toFloat32 }
        w.entity.acquireModifier.2 :: w.trace) = (renewal d.effect w.trace).apply
          (template.times count) := by
    rw [renewal_cons, renewal_cons]
    exact if_pos rfl
  refine insertModifier_cases (fun m' attached _ unowned => ?_) fun m' attached new _ => ?_
  · rw [Modifier.isSourced, source attached] at unowned
    cases unowned
  · refine (told _ _).mono fun _ w' announced => ⟨_, announced, ?_, rfl, entered⟩
    refine before.apply (before.tidy.acquireModifier.addNewModifier _ new) (fun stat => ?_) entered
    refine ((Entity.applied_addModifier _ _ stat).map Modifier.look).trans (.of_eq ?_)
    have look : m'.look = (template.times count).look := by
      rw [← attached, Modifier.attach_look]
      rfl
    have same : m'.stat = (template.times count).stat := by
      rw [← attached, Modifier.attach_stat]
      rfl
    rw [source attached, same]
    split
    · rename_i here
      rw [if_pos here.2, List.map_cons, look]
      rfl
    · rename_i elsewhere
      rw [if_neg fun here => elsewhere ⟨rfl, here⟩]
      rfl

/-- The modifiers of other effects are of no concern. -/
theorem renewModifiers_other {definition : EffectDefinition π}
    (other : definition.effect ≠ d.effect) (active : Bool) (count : UInt32) :
    (renewModifiers nested rules definition active count).Keeps (Faithful d) := by
  have steady := Faithful.steady d
  have apart : SourceTag.ofEffect definition.effect ≠ SourceTag.ofEffect d.effect :=
    fun same => other (SourceTag.ofEffect_inj.1 same)
  have records {mark : Entity π → Occurrence π}
      (unconcerned : ∀ e, (mark e).concerns d.effect = false) :
      (record mark).Keeps (Faithful d) := by
    intro w
    rw [yields_record]
    exact .of_record (unconcerned _)
  refine renewModifiers_keeps steady (records fun _ => decide_eq_false other)
    (removeModifiersOf_faithful told apart) (fun template count w => ?_)
    (records fun _ => decide_eq_false other) active count
  refine Yields.given fun before => ?_
  simp only [yields_bind, yields_updateEntity, yields_record, yields_pure]
  rw [before.tidy.acquireModifier_fst]
  have acquired : Faithful d w { w with entity := w.entity.acquireModifier.2 } :=
    .of_same (fun tidy => tidy.acquireModifier) rfl rfl
  have marked := steady.trans acquired (.of_record (o := .renewed definition.effect
    { Modifier.blank.configure template with
      value := (Modifier.blank.configure template).value * count.toFloat32 }
    w.entity.acquireModifier.2) (decide_eq_false other))
  have inserted : (insertModifier nested rules
      { Modifier.blank.configure template with
        value := (Modifier.blank.configure template).value * count.toFloat32 }
      (SourceTag.ofEffect definition.effect)).Keeps (Faithful d) :=
    insertModifier_faithful told (Option.some_ne_none _).symm fun same =>
      apart (Option.some.inj same)
  exact (steady.yields marked inserted).mono fun _ _ faithful => faithful before

/-- A renewal of the effect comes to its end, or it is overtaken by one that does. -/
theorem renewModifiers_concludes {active : Bool} {count : UInt32} (before : Accounted d w)
    (due : w.entity.due d = if active then d.scaled count else []) :
    (renewModifiers nested rules d active count).Yields w fun _ w' =>
      Accounted d w' ∧ Concluded d w' := by
  rw [renewModifiers, yields_bind, yields_record, yields_bind]
  have begun : renewal d.effect (.renewalStarted d.effect w.entity :: w.trace) = .begun := by
    rw [renewal_cons]
    exact if_pos rfl
  refine (removeModifiersOf_own told
    (w := { w with trace := .renewalStarted d.effect w.entity :: w.trace }) before.tidy
    (congrArg Renewal.own begun) (congrArg Renewal.late begun) (congrArg Renewal.lost begun)).mono
    fun _ w₁ cleared => ?_
  obtain ⟨accounted₁, either⟩ := cleared
  have underway₁ : Underway d (if active then d.scaled count else []) w₁ := by
    rcases either with same | concluded
    · refine .inr ⟨same.running.trans (congrArg Renewal.running begun), ?_⟩
      rw [same.own, same.due, begun]
      change (List.map Modifier.look _).Perm ((w.entity.due d).map _)
      rw [due]
    · exact .inl concluded
  have finish {w₂ : World π} (accounted₂ : Accounted d w₂) (underway₂ : Underway d [] w₂) :
      Yields (record (.renewalEnded d.effect)) w₂ fun _ w' => Accounted d w' ∧ Concluded d w' := by
    rw [yields_record]
    have ended : renewal d.effect (.renewalEnded d.effect w₂.entity :: w₂.trace) =
        { renewal d.effect w₂.trace with running := false } := by
      rw [renewal_cons]
      exact if_pos rfl
    refine ⟨⟨accounted₂.tidy, fun stat => ?_⟩, congrArg Renewal.running ended, ?_⟩
    · rw [ended]
      exact accounted₂.balance stat
    · rw [ended]
      rcases underway₂ with concluded | ⟨_, applied⟩
      · exact concluded.own
      · rwa [List.map_nil, List.append_nil] at applied
  cases active with
  | false => exact finish accounted₁ underway₁
  | true =>
      rw [if_pos rfl, yields_bind]
      refine (yields_forM (fun rest w => Accounted d w ∧
        Underway d (rest.map (Modifier.times · count)) w) ?_ d.modifiers w₁
        ⟨accounted₁, underway₁⟩).mono fun _ w₂ applied => finish applied.1 applied.2
      rintro template rest w₂ ⟨accounted₂, underway₂⟩
      refine (renewOne_yields told accounted₂ template count).mono fun _ w' renewed => ?_
      obtain ⟨w₃, faithful, accounted₃, due₃, entered⟩ := renewed
      refine faithful.underway accounted₃ ?_
      -- An overtaken renewal adds to what is late, the latest one to what it applied itself.
      rcases underway₂ with concluded | ⟨running, applied⟩
      · left
        rw [Renewal.apply, concluded.ended, if_neg (by decide)] at entered
        refine ⟨congrArg Renewal.running entered, ?_⟩
        rw [entered, due₃]
        exact concluded.own
      · right
        rw [Renewal.apply, running, if_pos rfl] at entered
        refine ⟨congrArg Renewal.running entered, ?_⟩
        rw [entered, due₃]
        exact List.perm_middle.symm.trans applied

/-! ### Settling -/

omit told [CustomTrigger π] in
theorem drain_faithful (effect : EffectName) : (drain effect).Keeps (Faithful d) := by
  refine fun w => drain_cases (fun _ => (Faithful.steady d).refl w) fun live _ => ?_
  exact .of_unmoved (fun tidy => tidy.detachStacks effect _) (fun _ => .detachStacks _ effect _)
    (renewal_cons_of_unconcerned rfl _)

variable (hookless : ∀ hook script, ¬rules.Starts hook script)

include hookless

omit told [CustomTrigger π] in
theorem announceFlip_faithful (effect : EffectName) (active : Bool) :
    (announceFlip nested rules effect active).Keeps (Faithful d) :=
  announceFlip_keeps (Faithful.steady d) (Faithful.ignored d)
    (fun hook script starts => (hookless hook script starts).elim) effect active

omit [CustomTrigger π] in
/-- With the effect go its modifiers, and what is due. -/
theorem removeLive_own (before : Accounted d w) :
    (removeLive nested rules d.effect).Yields w fun _ w' =>
      Accounted d w' ∧ (Undisturbed d w w' ∨ Concluded d w') := by
  refine removeLive_cases (fun _ => ⟨before, .inl (.refl w)⟩) fun live _ => ?_
  have gone : renewal d.effect (.effectRemoved d.effect
      (w.entity.dropEffect d.effect live) :: w.trace) = .gone := by
    rw [renewal_cons]
    exact if_pos rfl
  have concluded : Concluded d { w with
      entity := w.entity.dropEffect d.effect live
      trace := .effectRemoved d.effect (w.entity.dropEffect d.effect live) :: w.trace } := by
    refine ⟨congrArg Renewal.running gone, ?_⟩
    rw [gone, Entity.due_dropEffect, if_pos rfl]
    exact .refl _
  refine (removeModifiersOf_own told (before.tidy.dropEffect d.effect live)
    (congrArg Renewal.own gone) (congrArg Renewal.late gone)
    (congrArg Renewal.lost gone)).mono fun _ w₁ cleared => ?_
  obtain ⟨accounted₁, either⟩ := cleared
  have concluded₁ : Concluded d w₁ := either.elim (fun same => same.concluded concluded) id
  refine ⟨fun _ => ⟨accounted₁, .inr concluded₁⟩, fun _ => ?_⟩
  refine (announceFlip_faithful (d := d) hookless d.effect false w₁).mono fun _ w' flipped => ?_
  obtain ⟨accounted', concluded'⟩ := flipped.concluded accounted₁ concluded₁
  exact ⟨accounted', .inr concluded'⟩

omit [CustomTrigger π] in
theorem removeLive_faithful (effect : EffectName) :
    (removeLive nested rules effect).Keeps (Faithful d) := by
  have steady := Faithful.steady d
  intro w
  by_cases here : effect = d.effect
  · subst here
    exact Yields.given fun before => removeLive_own told hookless before
  · refine removeLive_cases (fun _ => steady.refl w) fun live _ => ?_
    have unconcerned : (Occurrence.effectRemoved effect
        (w.entity.dropEffect effect live)).concerns d.effect = false := decide_eq_false here
    have dropped : Faithful d w { w with
        entity := w.entity.dropEffect effect live
        trace := .effectRemoved effect (w.entity.dropEffect effect live) :: w.trace } :=
      .of_unmoved (fun tidy => tidy.dropEffect effect live)
        (fun _ => .dropEffect _ (Ne.symm here) live) (renewal_cons_of_unconcerned unconcerned _)
    have apart : SourceTag.ofEffect effect ≠ SourceTag.ofEffect d.effect :=
      fun same => here (SourceTag.ofEffect_inj.1 same)
    exact (steady.yields dropped (removeModifiersOf_faithful told apart)).mono fun _ w₁ cleared =>
      ⟨fun _ => cleared, fun _ => steady.yields cleared (announceFlip_faithful hookless effect false)⟩

omit [CustomTrigger π] in
theorem settleEnd_faithful (effect : EffectName) (v : Verdict) :
    (settleEnd nested rules effect v).Keeps (Faithful d) := by
  have steady := Faithful.steady d
  unfold settleEnd
  split
  · exact steady.bind (drain_faithful effect) fun _ =>
      removeIfEmpty_keeps steady (removeLive_faithful told hookless effect)
  · exact steady.pure ()

omit told hookless [CustomTrigger π] in
theorem recount_other {effect : EffectName} (other : effect ≠ d.effect) :
    (recount rules effect).Keeps (Faithful d) := by
  intro w
  refine (recount_stores effect w).mono fun found w' stored => ?_
  cases found with
  | none =>
      obtain ⟨rfl, -⟩ := stored
      exact (Faithful.steady d).refl _
  | some v =>
      obtain ⟨live, -, -, -, -, rfl⟩ := stored
      exact .of_unmoved (fun tidy => tidy.storeCount effect _ _)
        (fun _ => .storeCount _ (Ne.symm other) _ _) rfl

omit told hookless [CustomTrigger π] in
theorem due_of_live {e : Entity π} {live : LiveEffect π}
    (found : e.effects.get? d.effect = some live) :
    e.due d = if live.active then d.scaled live.count else [] := by
  rw [Entity.due, found]

omit told hookless [CustomTrigger π] in
/-- Where no renewal is called for, what is due is what was due before. -/
theorem due_of_not_renews {v : Verdict} {live : LiveEffect π}
    (flipped : v.flipped = (live.active != v.active))
    (counted : v.counted = (live.count != v.count)) (stays : v.renews d = false) :
    (if v.active then d.scaled v.count else []) =
      if live.active then d.scaled live.count else [] := by
  unfold Verdict.renews at stays
  rcases Bool.and_eq_false_iff.1 stays with none | neither
  · have empty : d.modifiers = [] := by simpa using none
    unfold EffectDefinition.scaled
    rw [empty, List.map_nil, List.map_nil, ite_self, ite_self]
  · obtain ⟨steadfast, same⟩ := Bool.or_eq_false_iff.1 neither
    have active : live.active = v.active := by simpa [flipped] using steadfast
    rw [active]
    split
    · rename_i yes
      have count : live.count = v.count := by simpa [yes, counted] using same
      rw [count]
    · rfl

omit told hookless [CustomTrigger π] in
theorem recount_own (before : Accounted d w) :
    (recount rules d.effect).Yields w fun found w' => match found with
      | none => w' = w
      | some v => Counted d v w w' := by
  refine (recount_stores d.effect w).mono fun found w' stored => ?_
  cases found with
  | none => exact stored.1
  | some v =>
      obtain ⟨live, found, -, -, verdict, rfl⟩ := stored
      have there : (w.entity.storeCount d.effect v.count v.active).effects.get? d.effect =
          some { live with count := v.count, active := v.active } :=
        Entity.get?_storeCount found ..
      have serial : live.serial = v.serial := (congrArg Verdict.serial verdict).symm
      refine ⟨⟨before.tidy.storeCount _ _ _, before.balance⟩, (holds_iff there).2 ⟨serial, rfl, rfl⟩,
        rfl, due_of_live there, fun stays => (due_of_live there).trans ?_⟩
      rw [due_of_live found]
      exact due_of_not_renews (congrArg Verdict.flipped verdict) (congrArg Verdict.counted verdict)
        stays

omit told [CustomTrigger π] in
/-- Without hooks nothing happens between the count of an effect and the renewal of its
modifiers. -/
theorem settleFlip_counted {v : Verdict} {w₁ : World π} (counted : Counted d v w w₁) :
    (settleFlip nested rules d.effect v).Yields w₁ fun still w' =>
      still = true ∧ Counted d v w w' := by
  have steady : Steady fun w₁ w₂ : World π => Counted d v w w₁ → Counted d v w w₂ :=
    ⟨fun _ same => same, fun first second before => second (first before)⟩
  have ignored : Ignored fun w₁ w₂ : World π => Counted d v w w₁ → Counted d v w w₂ := by
    intro mark plain w₁
    rw [yields_record]
    intro before
    have same := renewal_cons_of_unconcerned
      (Occurrence.concerns_of_isPlain (plain w₁.entity).1 d.effect) w₁.trace
    refine ⟨⟨before.accounted.tidy, fun stat => ?_⟩, before.holds, same.trans before.same,
      before.due, before.stays⟩
    rw [same]
    exact before.accounted.balance stat
  unfold settleFlip
  apply yields_ite
  · intro _
    simp only [yields_bind, yields_entity, yields_pure]
    have flips (w₁ : World π) : (announceFlip nested rules d.effect v.active).Yields w₁ _ :=
      announceFlip_keeps steady ignored (fun hook script starts =>
        (hookless hook script starts).elim) d.effect v.active w₁
    exact (flips w₁).mono fun _ w' kept => ⟨(kept counted).holds, kept counted⟩
  · intro _
    rw [yields_pure]
    exact ⟨rfl, counted⟩

theorem settle_own (registered : rules.effects.get? d.effect = some d) :
    (settle nested rules d.effect).Keeps (Faithful d) := by
  have steady := Faithful.steady d
  intro w
  refine Yields.given fun before => ?_
  rw [settle, yields_bind]
  refine (recount_own before).mono fun found w₁ counted => ?_
  cases found with
  | none =>
      obtain rfl := counted
      rw [yields_pure]
      exact ⟨before, .inl (.refl _)⟩
  | some v =>
      rw [yields_bind]
      refine (settleFlip_counted hookless counted).mono fun still w₂ flipped => ?_
      obtain ⟨rfl, counted₂⟩ := flipped
      have ends (still : Bool) : Keeps (Faithful d)
          (if still = true then settleEnd nested rules d.effect v else pure ()) := by
        split
        · exact settleEnd_faithful told hookless d.effect v
        · exact steady.pure ()
      rw [if_pos rfl, yields_bind, settleModifiers, registered]
      apply yields_ite
      · intro _
        simp only [yields_bind, yields_entity, yields_pure]
        refine (renewModifiers_concludes told counted₂.accounted counted₂.due).mono
          fun _ w₃ renewed => ?_
        refine (ends _ w₃).mono fun _ w' ended => ?_
        obtain ⟨accounted', concluded'⟩ := ended.concluded renewed.1 renewed.2
        exact ⟨accounted', .inr concluded'⟩
      · intro stays
        rw [yields_pure]
        have same : Undisturbed d w w₂ :=
          ⟨congrArg Renewal.running counted₂.same, congrArg Renewal.own counted₂.same,
            counted₂.stays (Bool.eq_false_iff.2 stays)⟩
        refine (ends true w₂).mono fun _ w' ended => ?_
        obtain ⟨accounted', either⟩ := ended counted₂.accounted
        exact ⟨accounted', either.imp_left same.trans⟩

theorem settle_faithful (registered : rules.effects.get? d.effect = some d) (effect : EffectName) :
    (settle nested rules effect).Keeps (Faithful d) := by
  by_cases here : effect = d.effect
  · rw [here]
    exact settle_own told hookless registered
  · refine settle_keeps (Faithful.steady d) (recount_other here)
      (announceFlip_faithful hookless effect) (fun definition found => ?_)
      (drain_faithful effect) (removeLive_faithful told hookless effect)
    refine renewModifiers_other told ?_
    rw [rules.filed effect definition found]
    exact here

theorem settleStacks_faithful (registered : rules.effects.get? d.effect = some d)
    (effect : EffectName) : (settleStacks nested rules effect).Keeps (Faithful d) :=
  settleStacks_keeps (Faithful.steady d) (Faithful.ignored d)
    (settle_faithful told hookless registered) effect

/-! ### Stacks -/

variable (registered : rules.effects.get? d.effect = some d)

include registered

omit told hookless registered [CustomTrigger π] in
theorem faithful_of_detached {effect : EffectName} {id : Handle} {e : Entity π}
    (detached : w.entity.detachStack? effect id = some e) : Faithful d w { w with entity := e } :=
  .of_entity (fun tidy => tidy.detachStack? detached) fun _ => .detachStack? detached

theorem removeStack_faithful (effect : EffectName) (id : Handle) :
    (removeStack nested rules effect id).Keeps (Faithful d) := by
  have steady := Faithful.steady d
  refine fun w => removeStack_cases (fun _ => steady.refl w) fun _ e _ detached => ?_
  exact steady.yields (faithful_of_detached detached)
    (settleStacks_faithful told hookless registered effect)

theorem removeStacksOf_faithful (effect : EffectName) (source : SourceTag) :
    (removeStacksOf nested rules effect source).Keeps (Faithful d) := by
  have steady := Faithful.steady d
  refine fun w => removeStacksOf_cases (fun _ => steady.refl w) fun live _ _ => ?_
  refine steady.yields (.of_entity (fun tidy => tidy.detachStacks effect _) fun _ => ?_)
    (settleStacks_faithful told hookless registered effect)
  exact .detachStacks w.entity effect _

theorem reduceStacks_faithful (effect : EffectName) (amount : UInt32) :
    (reduceStacks nested rules effect amount).Keeps (Faithful d) := by
  have steady := Faithful.steady d
  refine fun w => reduceStacks_cases (steady.refl w) fun live held left emptied found taken => ?_
  refine steady.yields (.of_entity (fun tidy => ?_) fun _ => ?_)
    (settleStacks_faithful told hookless registered effect)
  · exact (tidy.setDrawn found (drawDown_reverse taken)).detachStacks effect _
  · have set : w.entity.Unmoved d (w.entity.setStacks effect held.reverse) :=
      .modifyEffect _ effect fun _ => ⟨rfl, rfl⟩
    exact set.trans (.detachStacks _ effect _)

theorem stackFlipped_faithful (effect : EffectName) (id : Handle) :
    (stackFlipped nested rules effect id).Keeps (Faithful d) := by
  have steady := Faithful.steady d
  have settles := settleStacks_faithful told hookless registered effect
  exact fun w => stackFlipped_cases (fun _ => steady.refl w)
    (fun _ _ _ _ _ detached => steady.yields (faithful_of_detached detached) settles)
    fun _ _ _ => settles w

omit told hookless registered [CustomTrigger π] in
theorem faithful_updateStack {effect : EffectName} {id : Handle} {s : Stack π}
    (found : w.entity.stack? effect id = some s) {s' : Stack π} (same : s'.id = s.id) :
    Faithful d w { w with entity := w.entity.updateStack effect id s' } := by
  obtain ⟨_, _, there⟩ := Option.bind_eq_some_iff.1 found
  have handle : s'.id = id := same.trans (LiveEffect.id_of_stack? there)
  exact .of_entity (fun tidy => tidy.updateStack effect handle) fun _ =>
    .modifyEffect _ effect fun _ => ⟨rfl, rfl⟩

theorem stackStimulated_faithful (effect : EffectName) (id : Handle) :
    (stackStimulated nested rules effect id).Keeps (Faithful d) := by
  have steady := Faithful.steady d
  exact fun w => stackStimulated_cases (fun _ => steady.refl w)
    (fun _ _ _ _ => steady.refl w)
    fun _ found _ => steady.yields (faithful_updateStack found rfl)
      (stackFlipped_faithful told hookless registered effect id)

omit told hookless registered in
/-- An effect that becomes live neither counts nor applies yet. -/
theorem ensureLive_faithful (definition : EffectDefinition π) :
    (ensureLive rules definition).Keeps (Faithful d) := by
  refine fun w => ensureLive_cases (fun _ => (Faithful.steady d).refl w) fun missing => ?_
  refine .of_unmoved (fun tidy => tidy.addNewEffect _ _) (fun tidy => ?_) rfl
  have acquired : w.entity.Unmoved d w.entity.acquireEffect.2 := .of_same rfl rfl
  refine acquired.trans (.addEffect ?_ ?_ _)
  · exact Option.isNone_iff_eq_none.1 (Option.isSome_eq_false_iff.1 missing)
  · rw [tidy.acquireEffect_fst]
    rfl

omit told hookless registered in
theorem pushStack_faithful {effect : EffectName} {s : Stack π} (spare : w.entity.Spare s.id) :
    (pushStack effect s).Yields w fun _ w' => Faithful d w w' := by
  refine pushStack_cases (fun _ => ?_) fun _ => faithful_of_released w s.detach
  refine .of_unmoved (fun tidy => tidy.pushStack spare) (fun _ => ?_) rfl
  have pushed : w.entity.Unmoved d
      (w.entity.modifyEffect effect fun live => { live with held := live.held ++ [s] }) :=
    .modifyEffect _ effect fun _ => ⟨rfl, rfl⟩
  exact pushed.trans (.of_same rfl rfl)

omit told hookless registered in
theorem pushCapped_faithful {effect : EffectName} {s : Stack π} (spare : w.entity.Spare s.id)
    (value : UInt32) : (pushCapped effect s value).Yields w fun _ w' => Faithful d w w' :=
  pushCapped_cases (fun _ => faithful_of_released w s.detach) fun _ => pushStack_faithful spare

theorem mergeStack_faithful (definition : EffectDefinition π) (target : Handle)
    (incoming : Stack π) : (mergeStack nested rules definition target incoming).Keeps
      (Faithful d) := by
  have steady := Faithful.steady d
  have merges : (mergeDuration rules definition target incoming).Keeps (Faithful d) := by
    refine steady.bind (updateCondition_keeps steady (Faithful.ignored d)
      (setCondition_faithful _) _) fun result => ?_
    cases result with
    | none => exact steady.pure ()
    | some _ =>
        exact faithful_modifyEntity (fun e tidy => tidy.subscribe _ _) fun e => .of_same rfl rfl
  intro w
  have updated {w₂ : World π} {s s' : Stack π} (before : Faithful d w w₂)
      (found : w₂.entity.stack? definition.effect target = some s)
      (joined : { s with value := mergedValue definition s.value incoming.value } = s') :
      Faithful d w { w₂ with
        entity := w₂.entity.updateStack definition.effect target s'.refresh.1 } := by
    subst joined
    exact steady.trans before (faithful_updateStack found rfl)
  refine mergeStack_cases (Faithful d w) ((merges w).mono fun _ w₁ merged =>
    steady.trans merged (faithful_of_released w₁ _)) (fun _ before _ => before)
    (fun w₂ s s' before found _ joined _ => updated before found joined)
    fun w₂ s s' before found _ joined _ => ?_
  exact steady.yields (updated before found joined)
    (stackFlipped_faithful told hookless registered _ target)

theorem placeStack_faithful (definition : EffectDefinition π) {s : Stack π}
    (spare : w.entity.Spare s.id) :
    (placeStack nested rules definition s).Yields w fun _ w' => Faithful d w w' := by
  exact placeStack_cases (fun _ _ => faithful_of_released w s.detach)
    (fun _ => pushStack_faithful spare)
    (fun _ _ _ => pushCapped_faithful spare _) (fun _ _ _ _ => pushCapped_faithful spare _)
    fun target _ _ => mergeStack_faithful told hookless registered definition target s w

theorem addStackOf_faithful {definition : EffectDefinition π}
    (found : rules.effects.get? definition.effect = some definition) (s : Stack π)
    (source : Option SourceTag) :
    (addStackOf nested rules definition s source).Keeps (Faithful d) := by
  have steady := Faithful.steady d
  intro w
  refine Yields.given fun before => ?_
  refine addStackOf_cases (fun _ _ w₂ => Faithful d w w₂) ?places
    (fun _ outcome w₂ placed _ => ?settles) (fun _ _ placed _ => placed before)
    fun _ w₂ placed _ => ?empties
  case places =>
    refine (ensureLive_faithful (d := d) definition w).mono fun _ w₁ ensured s' _ handle => ?_
    have numbered : Faithful d w₁ { w₁ with
        entity := w₁.entity.takeHandle.2
        trace := .consulted w₁.entity.takeHandle.2 :: w₁.trace } :=
      .of_unmoved Entity.Tidy.takeHandle (fun _ => .of_same rfl rfl) rfl
    refine (placeStack_faithful told hookless registered definition ?_).mono fun _ _ placed =>
      steady.trans (steady.trans ensured numbered) placed
    rw [handle]
    exact (ensured before).1.tidy.spare
  case settles =>
    refine (steady.yields placed (settleStacks_faithful told hookless registered _)).mono
      fun _ w₃ settled => ?_
    refine (steady.yields settled (runHook_keeps steady fun script there => ?_)).mono
      fun _ _ faithful => faithful before
    exact (hookless _ _ (.stackAdded found there)).elim
  case empties =>
    exact (steady.yields placed (removeIfEmpty_keeps steady (removeLive_faithful told hookless _))).mono
      fun _ _ faithful => faithful before

theorem addStack_faithful (effect : EffectName) (s : Stack π) (source : Option SourceTag) :
    (addStack nested rules effect s source).Keeps (Faithful d) := by
  refine addStack_keeps (Faithful.steady d) effect s source (releaseStack_faithful s)
    fun definition found => ?_
  have named := rules.filed effect definition found
  subst named
  exact addStackOf_faithful told hookless registered found s source

/-! ### Events and calls -/

theorem react_faithful (owner : Owner) : (react nested rules owner).Keeps (Faithful d) := by
  cases owner with
  | modifier stat id => exact modifierStimulated_faithful told stat id
  | stack effect id => exact stackStimulated_faithful told hookless registered effect id
  | custom effect serial index =>
      exact customStimulated_keeps (Faithful.steady d) effect serial index
        (fun hook script starts _ => (hookless hook script starts).elim) (stimulate_faithful _ _)

theorem expose_faithful (owner : Owner) (stimulus : Stimulus) :
    (expose nested rules owner stimulus).Keeps (Faithful d) :=
  expose_keeps (Faithful.steady d) (stimulate_faithful owner stimulus)
    (react_faithful told hookless registered owner)

theorem announceStat_faithful (stat : StatName) :
    (announceStat nested rules stat).Keeps (Faithful d) :=
  announceStat_keeps (Faithful.steady d) (Faithful.ignored d) fun owner =>
    expose_faithful told hookless registered owner _

theorem addModifier_faithful {m : Modifier π} {source : Option SourceTag}
    (other : m.source ≠ some (SourceTag.ofEffect d.effect))
    (other' : source ≠ some (SourceTag.ofEffect d.effect)) :
    (addModifier nested rules m source).Keeps (Faithful d) := by
  refine fun w => addModifier_cases (insertModifier_faithful told other other' w)
    fun definition found named => ?_
  rw [← named] at found
  have released : Faithful d w { w with entity := w.entity.acquireStack.2.releaseModifier m } :=
    .of_same (fun tidy => tidy.acquireStack.releaseModifier m) rfl rfl
  exact (Faithful.steady d).yields released
    (addStackOf_faithful told hookless registered found _ source)

omit hookless registered in
theorem copyModifiers_faithful {modifiers : List (Modifier π)}
    (other : ∀ m ∈ modifiers, m.source ≠ some (SourceTag.ofEffect d.effect)) :
    (copyModifiers nested rules modifiers).Keeps (Faithful d) := by
  have steady := Faithful.steady d
  refine copyModifiers_keeps steady modifiers fun m member w => ?_
  refine Yields.given fun before => ?_
  rw [yields_bind, yields_updateEntity, before.tidy.acquireModifier_fst]
  have acquired : Faithful d w { w with entity := w.entity.acquireModifier.2 } :=
    .of_same (fun tidy => tidy.acquireModifier) rfl rfl
  have inserted : (insertModifier nested rules (Modifier.blank.configure m) m.source).Keeps
      (Faithful d) := insertModifier_faithful told nofun (other m member)
  exact (steady.yields acquired inserted).mono fun _ _ faithful => faithful before

theorem performWith_faithful {c : Call π} (unmarked : c.Unmarked) :
    (performWith nested rules c).Keeps (Faithful d) := by
  have steady := Faithful.steady d
  have set (stat : StatName) (change : StatValue → StatValue) :
      (setStat nested rules stat change).Keeps (Faithful d) := by
    refine setStat_keeps steady (fun change => ?_) (fun w modifying => ?_)
      (fun hook script starts _ => (hookless hook script starts).elim) change
    · exact steady.bind (faithful_modifyEntity (fun _ tidy => { tidy with })
        fun _ => .of_same rfl rfl) fun _ => told stat
    · exact .of_same (fun tidy => { tidy with }) rfl rfl
  cases c with
  | setBase stat value => exact set stat fun v => { v with base := value }
  | setCurrent stat value => exact set stat fun v => { v with current := value }
  | acquireModifier => exact acquireModifier_faithful
  | acquireStack =>
      exact faithful_updateEntity (fun _ tidy => tidy.acquireStack) fun _ => .of_same rfl rfl
  | addModifier m source =>
      exact addModifier_faithful told hookless registered (SourceTag.ne_of_unmarked unmarked.1)
        (SourceTag.ne_of_unmarked unmarked.2)
  | removeModifier id => exact removeModifier_faithful told id
  | removeModifiersOf source =>
      refine removeModifiersOf_faithful told fun same => ?_
      exact SourceTag.ne_of_unmarked unmarked (congrArg some same)
  | copyModifiers other source =>
      refine copyModifiers_faithful told fun m member => ?_
      obtain ⟨_, unmarked⟩ := List.mem_filter.1 member
      exact SourceTag.ne_of_unmarked (by simpa using unmarked)
  | addStack effect s source => exact addStack_faithful told hookless registered effect s source
  | replaceStack effect s source =>
      exact replaceStack_keeps steady effect s source (releaseStack_faithful s)
        (fun tag _ => removeStacksOf_faithful told hookless registered effect tag)
        (addStack_faithful told hookless registered effect s source)
  | removeStack effect id => exact removeStack_faithful told hookless registered effect id
  | removeStacksOf effect source =>
      exact removeStacksOf_faithful told hookless registered effect source
  | reduceStacks effect amount => exact reduceStacks_faithful told hookless registered effect amount
  | removeEffect effect =>
      exact removeEffect_keeps steady (removeLive_faithful told hookless effect)
  | refreshImmunity =>
      exact refreshImmunity_keeps steady (settle_faithful told hookless registered)
  | passTime delta =>
      exact passTime_keeps steady (Faithful.timeless d)
        (fun _ _ w => .of_same (fun tidy => { tidy with }) rfl rfl)
        fun owner => expose_faithful told hookless registered owner _

end

def Announces (d : EffectDefinition π) : Request π → World π → World π → Prop
  | .announce _ => Faithful d
  | .run .. => fun _ _ => True

theorem serve_faithful [CustomTrigger π] (hookless : ∀ hook script, ¬rules.Starts hook script)
    (registered : rules.effects.get? d.effect = some d) (levels : Nat) (stat : StatName) :
    (serve rules levels (.announce stat)).Keeps (Faithful d) := by
  refine serve_keeps (Announces d) (fun nested told stat => ?_) (fun _ _ _ _ _ _ _ _ => trivial)
    levels (.announce stat)
  exact announceStat_faithful (fun stat => told (.announce stat)) hookless registered stat

end Engine

/-! ### Runs -/

theorem ModifierForm.source_build {types : ConditionTypes π} {form : ModifierForm} {m : Modifier π}
    (built : form.build types = .ok m) : m.source = none := by
  unfold ModifierForm.build at built
  cases duration : types.build form.duration with
  | error e =>
      rw [duration] at built
      cases built
  | ok c =>
      rw [duration] at built
      cases built
      rfl

/-- Between calls the modifiers of an effect are accounted for, and its latest renewal is at its
end. -/
theorem Reached.accounted [CustomTrigger π] (hookless : ∀ hook script, ¬rules.Starts hook script)
    (registered : rules.effects.get? d.effect = some d)
    (reached : Reached rules Snapshot.Unmarked (fun _ c => c.Unmarked) w) :
    Accounted d w ∧ Concluded d w := by
  have start {e : Entity π} (tidy : e.Tidy) (modifiers : e.modifiers = .empty)
      (effects : e.effects = ∅) : Accounted d (.ofEntity e) ∧ Concluded d (.ofEntity e) := by
    refine ⟨⟨tidy, fun stat => .of_eq ?_⟩, rfl, .of_eq ?_⟩
    · change (e.applied d.effect stat).map _ ++ [] = []
      unfold Entity.applied
      rw [modifiers]
      rfl
    · change [] = (e.due d).map _
      unfold Entity.due
      rw [effects]
      rfl
  induction reached with
  | new => exact start .new rfl rfl
  | @restored levels snapshot w unmarked restores =>
      have told := Engine.serve_faithful hookless registered levels
      have faithful : Act.Keeps (Faithful d) (snapshot.addParts rules levels).run :=
        Engine.addParts_keeps (Faithful.steady d)
          (fun form member m built => Engine.insertModifier_faithful told
            (by rw [ModifierForm.source_build built]; exact nofun)
            (SourceTag.ne_of_unmarked (unmarked form member)))
          (fun effect form s _ =>
            Engine.addStack_faithful told hookless registered effect s form.source)
      obtain ⟨accounted, concluded⟩ := start (e := { Entity.new with values := snapshot.stats })
        { Entity.Tidy.new with } rfl rfl
      exact (faithful _ _ _ restores).concluded accounted concluded
  | @called levels w w' c reply _ unmarked returns ih =>
      have told := Engine.serve_faithful hookless registered levels
      exact (Engine.performWith_faithful told hookless registered unmarked _ _ _ returns).concluded
        ih.1 ih.2

/-- Without hooks, and as long as nobody acts in the name of an effect, the modifiers of an effect
are between calls the ones that are due, unless an overtaken renewal went on to apply some: only if
just these have been taken out by handle are the others right. -/
theorem mirrors_iff_offset [CustomTrigger π] (hookless : ∀ hook script, ¬rules.Starts hook script)
    (registered : rules.effects.get? d.effect = some d)
    (reached : Reached rules Snapshot.Unmarked (fun _ c => c.Unmarked) w) :
    w.entity.Mirrors d ↔ (renewal d.effect w.trace).Offset := by
  obtain ⟨⟨_, balance⟩, _, own⟩ := reached.accounted hookless registered
  unfold Entity.Mirrors Renewal.Offset
  generalize renewal d.effect w.trace = r at balance own ⊢
  have due (stat : StatName) : (r.own.filter fun m => m.stat = stat).Perm
      (((w.entity.due d).filter fun m => m.stat = stat).map Modifier.look) := by
    refine (own.filter _).trans (.of_eq ?_)
    rw [List.filter_map]
    rfl
  constructor
  · intro mirrors
    refine perm_of_filter (f := Modifier.stat) fun stat => ?_
    have balanced := balance stat
    rw [List.filter_append] at balanced
    have matched := (mirrors stat).trans (due stat).symm
    have cancelled := (matched.append_right _).symm.trans balanced
    exact ((List.perm_append_left_iff _).1 cancelled).symm
  · intro offset stat
    have balanced := balance stat
    rw [List.filter_append] at balanced
    have swapped := balanced.trans ((offset.filter _).append_left _)
    exact ((List.perm_append_right_iff _).1 swapped).trans (due stat)

def fortify : EffectDefinition Empty :=
  { EffectDefinition.ofName "fortify" with
    stacking := .separate
    modifiers := [.ofParts "health" .add 10] }

def fortifyRules : Rulebook Empty :=
  (((Rulebook.builtin.registerStat "health" 100).bind fun rules =>
    rules.registerEffect fortify).toOption).getD .builtin

theorem fortifyRules_hookless (hook : Hook) (script : Script Empty Unit) :
    ¬fortifyRules.Starts hook script := by
  have only (name : EffectName) (d : EffectDefinition Empty)
      (registered : fortifyRules.effects.get? name = some d) : d = fortify := by
    change ((∅ : Table (EffectDefinition Empty)).insert "fortify" fortify).get? name = _ at registered
    rw [Table.get?_insert] at registered
    split at registered
    · cases registered
      rfl
    · cases registered
  intro starts
  cases starts with
  | activated registered there => cases only _ _ registered; cases there
  | deactivated registered there => cases only _ _ registered; cases there
  | stackAdded registered there => cases only _ _ registered; cases there
  | custom registered there => cases only _ _ registered; cases there
  | modified registered => cases registered

/-- Three stacks that come one after the other are mirrored. -/
theorem fortify_mirrored : ∃ w : World Empty,
    (∀ hook script, ¬fortifyRules.Starts hook script) ∧
      fortifyRules.effects.get? "fortify" = some fortify ∧
      Reached fortifyRules Snapshot.Unmarked (fun _ c => c.Unmarked) w ∧
      w.entity.activeCount "fortify" = 3 ∧ (renewal "fortify" w.trace).Offset ∧
      w.entity.Mirrors fortify := by
  have made : ((Engine.performAll fortifyRules 8
      [.addStack "fortify" (.ofValue 1) none, .addStack "fortify" (.ofValue 2) none]
      (.ofEntity .new)).any fun w => w.entity.activeCount "fortify" = 3 &&
        (renewal "fortify" w.trace).late.isEmpty && (renewal "fortify" w.trace).lost.isEmpty) =
      true := by
    decide +kernel
  obtain ⟨w, run, checked⟩ := (Option.any_eq_true ..).1 made
  rw [Bool.and_eq_true, Bool.and_eq_true, List.isEmpty_iff, List.isEmpty_iff] at checked
  obtain ⟨⟨count, late⟩, lost⟩ := checked
  have reached : Reached fortifyRules Snapshot.Unmarked (fun _ c => c.Unmarked) w := by
    refine Engine.reached_of_performAll .new (fun c listed _ => ?_) run
    simp only [List.mem_cons, List.not_mem_nil, or_false] at listed
    rcases listed with rfl | rfl
    · trivial
    · trivial
  have offset : (renewal "fortify" w.trace).Offset := by
    unfold Renewal.Offset
    rw [late, lost]
  exact ⟨w, fortifyRules_hookless, rfl, reached, of_decide_eq_true count, offset,
    (mirrors_iff_offset fortifyRules_hookless rfl reached).2 offset⟩

def respite : Stack Empty :=
  { (Stack.ofValue 1 : Stack Empty) with
    duration := .ofTrigger (.threshold ⟨"health", .greaterEquals, 100, true⟩) }

/-- The second stack makes two active ones, so the modifier is to be applied twice over. Taking the
earlier one away lets the second stack rest, which settles the effect again at one stack, and then
the overtaken renewal still applies its modifier for two. -/
theorem fortify_not_mirrored : ∃ (w : World Empty) (live : LiveEffect Empty),
    (∀ hook script, ¬fortifyRules.Starts hook script) ∧
      fortifyRules.effects.get? "fortify" = some fortify ∧
      Reached fortifyRules Snapshot.Unmarked (fun _ c => c.Unmarked) w ∧
      w.entity.effects.get? "fortify" = some live ∧ live.active = true ∧ live.count = 1 ∧
      (w.entity.applied "fortify" "health").length = 2 ∧ ¬w.entity.Mirrors fortify := by
  have made : ((Engine.performAll fortifyRules 8
      [.addStack "fortify" (.ofValue 1) none, .addStack "fortify" respite none]
      (.ofEntity .new)).any fun w => (w.entity.effects.get? "fortify").any fun live =>
        live.active && live.count = 1 && (w.entity.applied "fortify" "health").length = 2) =
      true := by
    decide +kernel
  obtain ⟨w, run, checked⟩ := (Option.any_eq_true ..).1 made
  obtain ⟨live, found, checked⟩ := (Option.any_eq_true ..).1 checked
  rw [Bool.and_eq_true, Bool.and_eq_true, decide_eq_true_eq, decide_eq_true_eq] at checked
  obtain ⟨⟨active, count⟩, two⟩ := checked
  have reached : Reached fortifyRules Snapshot.Unmarked (fun _ c => c.Unmarked) w := by
    refine Engine.reached_of_performAll .new (fun c listed _ => ?_) run
    simp only [List.mem_cons, List.not_mem_nil, or_false] at listed
    rcases listed with rfl | rfl
    · trivial
    · trivial
  refine ⟨w, live, fortifyRules_hookless, rfl, reached, found, active, count, two, fun mirrors => ?_⟩
  have due : w.entity.due fortify = [(Modifier.ofParts "health" .add 10).times live.count] := by
    rw [Engine.due_of_live (d := fortify) found, if_pos active]
    rfl
  have lengths := (mirrors "health").length_eq
  rw [List.length_map, List.length_map, due] at lengths
  have one := two.symm.trans lengths
  cases one

end StatusEffects
