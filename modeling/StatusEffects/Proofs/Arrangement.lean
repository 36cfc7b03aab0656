import StatusEffects.Proofs.Propagation
import StatusEffects.Proofs.Ranking
import StatusEffects.Proofs.Subscriptions

/-!
How modifiers and stacks are arranged on an entity.

The modifiers of a stat stand in the order of their operators, and a stack is without a duration
only where its effect is. Each move keeps this, since an event changes the progress of a tree but
never leaves none in its place.
-/

set_option autoImplicit false

namespace StatusEffects

variable {π : Type}

/-! ### What hooks hand in -/

def HandsFresh (w w' : World π) : Prop := Handed w.trace → Handed w'.trace

namespace HandsFresh

theorem steady : Act.Steady (HandsFresh (π := π)) :=
  ⟨fun _ => id, fun first second handed => second (first handed)⟩

/-- Nothing but a call by a hook hands something in. -/
theorem push (w : World π) (e : Entity π) {happened : List (Occurrence π)}
    (uncalled : ∀ c reply seen, .called c reply seen ∉ happened) :
    HandsFresh w { w with entity := e, trace := happened ++ w.trace } := by
  intro handed c reply seen member
  rcases List.mem_append.1 member with new | old
  · exact absurd new (uncalled c reply seen)
  · exact handed c reply seen old

theorem mark (w : World π) {o : Occurrence π} (uncalled : ∀ c reply seen, o ≠ .called c reply seen) :
    HandsFresh w { w with trace := o :: w.trace } := by
  have only (c : Call π) (reply : c.Reply) (seen : Entity π) : .called c reply seen ∉ [o] :=
    fun member => uncalled c reply seen (List.mem_singleton.1 member).symm
  exact push w w.entity only

theorem aside {asides : List (Occurrence π)} (aside : Asides asides) (c : Call π) (reply : c.Reply)
    (seen : Entity π) : .called c reply seen ∉ asides :=
  fun member => Bool.false_ne_true (aside _ member)

theorem ignored : Act.Ignored (HandsFresh (π := π)) := by
  intro mark plain w
  rw [Act.yields_record]
  refine .mark w fun c reply seen same => ?_
  have := (plain w.entity).1
  rw [same] at this
  cases this

theorem timeless : Act.Timeless (HandsFresh (π := π)) := by
  intro mark ofTime w
  rw [Act.yields_record]
  refine .mark w fun c reply seen same => ?_
  have := (ofTime w.entity).1
  rw [same] at this
  cases this

end HandsFresh

variable [CustomTrigger π]

namespace Entity

variable {rules : Rulebook π} {operators : OperatorTable} {stats : List StatName}
  {effects : List EffectName} {e e' : Entity π}

/-! ### Modifiers in the order of their operators -/

def Ranked (operators : OperatorTable) (e : Entity π) : Prop :=
  ∀ stat, operators.Ranked (e.modifiers.get stat)

omit [CustomTrigger π] in
theorem Ranked.of_same (ranked : e.Ranked operators) (same : e'.modifiers = e.modifiers) :
    e'.Ranked operators := by
  unfold Ranked
  rw [same]
  exact ranked

omit [CustomTrigger π] in
theorem Ranked.modify (ranked : e.Ranked operators) {stat : StatName} {id : Handle}
    {change : Modifier π → Modifier π}
    (same : (modifyFirst (fun m => m.id = id) change (e.modifiers.get stat)).map Modifier.op =
      (e.modifiers.get stat).map Modifier.op) :
    Ranked operators { e with modifiers := e.modifiers.modify stat id change } := by
  intro other
  change operators.Ranked ((e.modifiers.modify stat id change).get other)
  rw [ModifierLists.get_modify]
  split
  · rename_i equal
    subst equal
    exact (ranked other).of_ops same
  · exact ranked other

omit [CustomTrigger π] in
theorem Ranked.setCondition (ranked : e.Ranked operators) (owner : Owner) (c : Condition π) :
    (e.setCondition owner c).Ranked operators := by
  cases owner with
  | modifier stat id =>
      apply ranked.modify
      apply map_modifyFirst
      exact fun _ _ => rfl
  | stack effect id => exact ranked
  | custom effect serial index => exact ranked

theorem Move.ranked (move : e.Move rules stats effects e')
    (ranked : e.Ranked rules.operators) : e'.Ranked rules.operators := by
  cases move with
  | @addModifier m new =>
      intro stat
      change rules.operators.Ranked ((e.modifiers.insert rules.operators m).get stat)
      rw [ModifierLists.get_insert]
      split
      · exact (ranked stat).place m
      · exact ranked stat
  | @updateModifier stat id m _ found owed =>
      exact ranked.modify (map_modifyFirst_of_found found rfl)
  | @dropModifier stat id _ dropped =>
      obtain ⟨⟨m, rest⟩, removed, rfl⟩ := Option.map_eq_some_iff.1 dropped
      intro other
      change rules.operators.Ranked (rest.get other)
      rw [ModifierLists.get_remove? removed]
      split
      · exact (ranked other).sublist (List.eraseP_sublist)
      · exact ranked other
  | @dropModifiersOf source _ owed =>
      intro other
      rw [get_dropModifiersOf]
      exact (ranked other).sublist List.filter_sublist
  | stimulate owner stimulus r there => exact ranked.setCondition owner _
  | @mergeDuration owner _ _ _ c there merged => exact ranked.setCondition owner c
  | detachStack detached =>
      obtain ⟨live, s, -, -, rfl⟩ := detachStack?_eq_some detached
      exact ranked
  | addEffect registered absent r =>
      exact ranked.of_same (addEffect_stats e.acquireEffect.2 _ _).2
  | dropEffect found owed => exact ranked.of_same (dropEffect_stats e _ _).2
  | _ => exact ranked

/-! ### Stacks with the durations of their effects -/

/-- A live stack is without a duration only where its effect is. -/
def Lasting (rules : Rulebook π) (e : Entity π) : Prop :=
  ∀ effect live, e.effects.get? effect = some live → ∀ s ∈ live.held, s.Lasts rules effect

omit [CustomTrigger π] in
theorem Lasting.of_same (lasting : e.Lasting rules) (same : e'.effects = e.effects) :
    e'.Lasting rules := by
  unfold Lasting
  rw [same]
  exact lasting

omit [CustomTrigger π] in
theorem Lasting.modifyEffect (lasting : e.Lasting rules) {effect : EffectName}
    {change : LiveEffect π → LiveEffect π}
    (keeps : ∀ live, e.effects.get? effect = some live → ∀ s ∈ (change live).held,
      s ∈ live.held ∨ s.Lasts rules effect) : (e.modifyEffect effect change).Lasting rules := by
  intro name live found s member
  rw [get?_modifyEffect] at found
  split at found
  · rename_i same
    subst same
    obtain ⟨before, there, rfl⟩ := Option.map_eq_some_iff.1 found
    rcases keeps before there s member with old | lasts
    · exact lasting _ before there s old
    · exact lasts
  · exact lasting name live found s member

omit [CustomTrigger π] in
theorem Lasting.modifyStack (lasting : e.Lasting rules) {effect : EffectName} {id : Handle}
    {change : Stack π → Stack π}
    (keeps : ∀ s, e.stack? effect id = some s → (change s).Lasts rules effect) :
    (e.modifyEffect effect fun live => live.modifyStack id change).Lasting rules := by
  refine lasting.modifyEffect fun live there s member => ?_
  rcases mem_modifyFirst member with old | ⟨before, found, rfl⟩
  · exact .inl old
  · refine .inr (keeps before ?_)
    unfold Entity.stack?
    rw [there, Option.bind_some]
    exact found

omit [CustomTrigger π] in
theorem Lasting.setCondition (lasting : e.Lasting rules) {owner : Owner} {c : Condition π}
    (there : c ≠ .absent) : (e.setCondition owner c).Lasting rules := by
  cases owner with
  | modifier stat id => exact lasting
  | stack effect id => exact lasting.modifyStack fun s _ absent => absurd absent there
  | custom effect serial index =>
      refine lasting.modifyEffect fun live _ s member => ?_
      split at member
      · exact .inl member
      · exact .inl member

theorem Move.lasting (move : e.Move rules stats effects e') (tidy : e.Tidy)
    (lasting : e.Lasting rules) : e'.Lasting rules := by
  cases move with
  | @dropModifiersOf source _ owed => exact lasting.of_same (dropModifiersOf_effects e source)
  | @dropModifier stat id _ dropped =>
      obtain ⟨⟨m, rest⟩, removed, rfl⟩ := Option.map_eq_some_iff.1 dropped
      exact lasting
  | @pushStack effect s live new lasts =>
      refine lasting.modifyEffect fun before _ other member => ?_
      rcases List.mem_append.1 member with old | last
      · exact .inl old
      · rw [List.mem_singleton.1 last]
        exact .inr lasts
  | @updateStack effect id s found value =>
      refine lasting.modifyStack fun before _ => ?_
      obtain ⟨live, there, stack⟩ := Option.bind_eq_some_iff.1 found
      exact lasting effect live there s (List.mem_of_find?_eq_some stack)
  | stimulate owner stimulus r there =>
      exact lasting.setCondition (Condition.apply_ne_absent there stimulus r)
  | @mergeDuration owner stacking r incoming c there merged =>
      subst merged
      exact lasting.setCondition (Condition.mergedDuration_ne_absent there stacking r incoming)
  | @detachStack effect id _ detached =>
      have fewer : (e.modifyEffect effect fun live => live.without [id]).Lasting rules :=
        lasting.modifyEffect fun live _ s member => .inl (List.mem_filter.1 member).1
      exact fewer.of_same (tidy.effects_detachStack? detached)
  | @setStacks effect live held found drawn =>
      refine lasting.modifyEffect fun before there s member => .inr ?_
      rw [found] at there
      cases there
      obtain ⟨old, present, same, -⟩ := Stack.Drawn.mem drawn member
      rw [same]
      exact lasting effect live found old present
  | @storeCount effect live _ found count active owed =>
      exact lasting.modifyEffect fun _ _ s member => .inl member
  | @addEffect name d registered absent r =>
      intro effect live found s member
      rw [addEffect_effects] at found
      change (e.effects.insert d.effect _).get? effect = some live at found
      rw [Table.get?_insert] at found
      split at found
      · cases found
        have none : e.acquireEffect.1.held = [] := by rw [tidy.acquireEffect_fst]; rfl
        change s ∈ e.acquireEffect.1.held at member
        rw [none] at member
        cases member
      · exact lasting effect live found s member
  | @dropEffect effect live _ found owed =>
      intro name other there s member
      rw [dropEffect_effects, Table.get?_erase] at there
      split at there
      · cases there
      · exact lasting name other there s member
  | _ => exact lasting

end Entity

/-! ### Runs -/

/-- Without hooks nothing at all is handed in during a call. -/
theorem HandsFresh.admits {rules : Rulebook π}
    (hookless : ∀ hook script, ¬rules.Starts hook script) :
    Engine.Admits rules (HandsFresh (π := π)) where
  steady := steady
  ignored := ignored
  told {w _ _ e _} _ aside told := by
    have noticed (w : World π) (stat : StatName) :
        HandsFresh w { w with trace := .statChanged stat w.entity :: w.trace } :=
      .mark w fun _ _ _ same => by cases same
    exact steady.trans (.push w e (HandsFresh.aside aside)) (told.steady steady noticed)
  flipped {w w' effect e _} _ aside after := by
    have called : HandsFresh w' { w' with trace := .effectChanged effect w'.entity :: w'.trace } :=
      .mark w' fun _ _ _ same => by cases same
    exact steady.trans (steady.trans (.push w e (HandsFresh.aside aside)) after) called
  running _ _ := id
  called starts := absurd starts (hookless _ _)
  passes _ reacts delta := by
    have sets (owner : Owner) (c : Condition π) :
        (Act.modifyEntity fun e => e.setCondition owner c).Keeps HandsFresh := by
      intro w
      rw [Act.yields_modifyEntity]
      exact id
    have ticks (owner : Owner) :
        (Engine.stimulate rules owner (.time delta)).Keeps HandsFresh :=
      Engine.stimulate_keeps steady ignored timeless (sets owner) _
    exact Engine.passTime_keeps steady timeless (fun _ _ _ => id) fun owner =>
      Engine.expose_keeps steady (ticks owner) (reacts owner)

namespace Reached

variable {rules : Rulebook π} {snapshots : Snapshot → Prop} {calls : Entity π → Call π → Prop}
  {w : World π}

/-- Between calls the modifiers of every stat stand in the order of their operators. -/
theorem ranked (reached : Reached rules snapshots calls w) :
    w.entity.Ranked rules.operators := by
  refine reached.of_admits (R := fun w w' => w.entity.Ranked rules.operators →
    w'.entity.Ranked rules.operators) ?_ (fun _ _ keeps => keeps) fun values stat => .nil
  exact .of_entity (fun _ => id) (fun first second before => second (first before))
    (fun move before => move.ranked before) fun within before => within before

/-- Between calls no stack is without a duration where its effect has one. -/
theorem lasting (reached : Reached rules snapshots calls w) : w.entity.Lasting rules := by
  let keeps (e e' : Entity π) : Prop :=
    e.Attends e' ∧ (e.Attended → e.Lasting rules → e'.Lasting rules)
  have admits : Engine.Admits rules fun w w' : World π => keeps w.entity w'.entity := by
    refine .of_entity (fun e => ⟨.refl e, fun _ => id⟩) (fun first second => ?_)
      (fun move => ⟨move.attends, fun attended => move.lasting attended.tidy⟩) fun within => ?_
    · exact ⟨first.1.trans second.1, fun attended lasting =>
        second.2 (first.1 attended).1 (first.2 attended lasting)⟩
    · exact ⟨within.1.walk, fun attended =>
        within.2 (attended.walk attended.booked.timers.startWalk fun _ => Iff.rfl)⟩
  let inOrder (w : World π) : Prop := w.entity.Attended ∧ w.entity.Lasting rules
  have kept (w w' : World π) (keeps : keeps w.entity w'.entity) (before : inOrder w) : inOrder w' :=
    ⟨(keeps.1 before.1).1, keeps.2 before.1 before.2⟩
  have both : inOrder w := by
    refine reached.of_admits admits kept fun values => ⟨.start values, fun effect live found => ?_⟩
    cases found
  exact both.2

/-- Where no hook is registered none hands anything in. -/
theorem handed (hookless : ∀ hook script, ¬rules.Starts hook script)
    (reached : Reached rules snapshots calls w) : Handed w.trace :=
  reached.of_admits (HandsFresh.admits hookless) (fun _ _ keeps => keeps)
    fun _ _ _ _ member => (List.not_mem_nil member).elim

end Reached

end StatusEffects
