import StatusEffects.Proofs.Faults
import StatusEffects.Proofs.QuietChanges
import Mathlib.Logic.Relation

/-!
The course of events.

A call takes its course in small advances: something changes quietly, an event goes through the
condition of a custom effect, or such an event sets off the action of the custom effect, which then
starts at once. A call that fails has gone a part of its course, and may have left an event behind
whose action could not start.

Effects become live by calls alone, so the calls that are made are a parameter.
-/

set_option autoImplicit false

namespace StatusEffects

variable {π : Type} [CustomTrigger π]

/-! ### Quiet changes -/

structure LiveEffect.GoesOn (live live' : LiveEffect π) : Prop where
  serial : live'.serial = live.serial
  conditions : live'.conditions = live.conditions

/-- The conditions of a live effect are those of its definition, just armed. -/
def LiveEffect.Rooted (rules : Rulebook π) (name : EffectName) (live : LiveEffect π) : Prop :=
  ∃ d r, rules.effects.get? name = some d ∧
    live.conditions = d.customEffects.map fun custom => custom.condition.pristine.arm r

structure LiveEffect.Arises (rules : Rulebook π) (calls : Call π → Prop) (first : Handle)
    (name : EffectName) (live : LiveEffect π) : Prop where
  called : ∃ c, calls c
  new : first ≤ live.serial
  rooted : live.Rooted rules name

structure Entity.Ensues (rules : Rulebook π) (calls : Call π → Prop) (e e' : Entity π) : Prop where
  handles : e.nextHandle ≤ e'.nextHandle
  effects : ∀ name live', e'.effects.get? name = some live' →
    (∃ live, e.effects.get? name = some live ∧ live.GoesOn live') ∨
      live'.Arises rules calls e.nextHandle name

/-- A change of an entity that leaves the conditions of custom effects as they are. -/
def Entity.Quiet (rules : Rulebook π) (calls : Call π → Prop) (e e' : Entity π) : Prop :=
  e.Tidy → e'.Tidy ∧ e.Ensues rules calls e'

section

variable {rules : Rulebook π} {calls : Call π → Prop}

namespace LiveEffect.GoesOn

variable {live live₁ live₂ : LiveEffect π}

omit [CustomTrigger π] in
theorem refl (live : LiveEffect π) : live.GoesOn live := ⟨rfl, rfl⟩

omit [CustomTrigger π] in
theorem trans (first : live.GoesOn live₁) (second : live₁.GoesOn live₂) : live.GoesOn live₂ :=
  ⟨second.serial.trans first.serial, second.conditions.trans first.conditions⟩

end LiveEffect.GoesOn

theorem LiveEffect.Arises.goesOn {first : Handle} {name : EffectName} {live live' : LiveEffect π}
    (arises : live.Arises rules calls first name) (goesOn : live.GoesOn live') :
    live'.Arises rules calls first name where
  called := arises.called
  new := goesOn.serial ▸ arises.new
  rooted := by
    unfold Rooted
    rw [goesOn.conditions]
    exact arises.rooted

namespace Entity

variable {e e₁ e₂ : Entity π}

theorem Ensues.refl (e : Entity π) : e.Ensues rules calls e :=
  ⟨Nat.le_refl _, fun _ live found => .inl ⟨live, found, .refl live⟩⟩

theorem Ensues.trans (first : e.Ensues rules calls e₁) (second : e₁.Ensues rules calls e₂) :
    e.Ensues rules calls e₂ := by
  refine ⟨Nat.le_trans first.handles second.handles, fun name live₂ found => ?_⟩
  rcases second.effects name live₂ found with ⟨live₁, found₁, goesOn⟩ | arises
  · rcases first.effects name live₁ found₁ with ⟨live, there, before⟩ | arises
    · exact .inl ⟨live, there, before.trans goesOn⟩
    · exact .inr (arises.goesOn goesOn)
  · exact .inr { arises with new := Nat.le_trans first.handles arises.new }

theorem Ensues.of_effects (le : e.nextHandle ≤ e₁.nextHandle) (same : e₁.effects = e.effects) :
    e.Ensues rules calls e₁ := by
  refine ⟨le, fun name live found => .inl ⟨live, ?_, .refl live⟩⟩
  rw [← same]
  exact found

theorem Ensues.of_modify {effect : EffectName} (change : LiveEffect π → LiveEffect π)
    (le : e.nextHandle ≤ e₁.nextHandle) (modified : e₁.effects = e.effects.modify effect change)
    (goesOn : ∀ live, e.effects.get? effect = some live → live.GoesOn (change live)) :
    e.Ensues rules calls e₁ := by
  refine ⟨le, fun name live' found => .inl ?_⟩
  rw [modified, Table.get?_modify] at found
  split at found
  · rename_i same
    subst same
    obtain ⟨live, there, rfl⟩ := Option.map_eq_some_iff.1 found
    exact ⟨live, there, goesOn live there⟩
  · exact ⟨live', found, .refl live'⟩

theorem Quiet.refl (e : Entity π) : e.Quiet rules calls e := fun tidy => ⟨tidy, .refl e⟩

theorem Quiet.trans (first : e.Quiet rules calls e₁) (second : e₁.Quiet rules calls e₂) :
    e.Quiet rules calls e₂ := by
  intro tidy
  obtain ⟨tidy₁, ensues⟩ := first tidy
  obtain ⟨tidy₂, later⟩ := second tidy₁
  exact ⟨tidy₂, ensues.trans later⟩

/-- What is no part of the live effects may change. -/
theorem Quiet.of_same (tidy : e.Tidy → e₁.Tidy) (le : e.nextHandle ≤ e₁.nextHandle)
    (same : e₁.effects = e.effects) : e.Quiet rules calls e₁ :=
  fun before => ⟨tidy before, .of_effects le same⟩

/-- The stacks of a live effect may change, and what is counted of them. -/
theorem Quiet.of_modify {effect : EffectName} {change : LiveEffect π → LiveEffect π}
    (tidy : e.Tidy → (e.modifyEffect effect change).Tidy)
    (goesOn : ∀ live, e.effects.get? effect = some live → live.GoesOn (change live)) :
    e.Quiet rules calls (e.modifyEffect effect change) :=
  fun before => ⟨tidy before, .of_modify change (Nat.le_refl _) rfl goesOn⟩

/-! ### What changes quietly -/

theorem Quiet.takeHandle (e : Entity π) : e.Quiet rules calls e.takeHandle.2 :=
  .of_same Tidy.takeHandle (Nat.le_succ _) rfl

theorem Quiet.addModifier (e : Entity π) (operators : OperatorTable) {m : Modifier π}
    (new : m.id = e.nextHandle) :
    e.Quiet rules calls (e.takeHandle.2.addModifier operators m) :=
  .of_same (fun tidy => tidy.addNewModifier operators new) (Nat.le_succ _) rfl

theorem Quiet.updateModifier {stat : StatName} {id : Handle} {m : Modifier π}
    (found : e.modifiers.find? stat id = some m) :
    e.Quiet rules calls (e.updateModifier stat id m.refresh.1) := by
  refine .of_same (fun tidy => ?_) (Nat.le_refl _) rfl
  have handle : m.refresh.1.id = id := of_decide_eq_true (List.find?_some found :)
  exact tidy.updateModifier (tidy.filed stat m (List.mem_of_find?_eq_some found)) handle

theorem Quiet.dropModifier {stat : StatName} {id : Handle}
    (dropped : e.dropModifier? stat id = some e₁) : e.Quiet rules calls e₁ := by
  refine .of_same (fun tidy => tidy.dropModifier? dropped) ?_ ?_
  · obtain ⟨_, -, rfl⟩ := Option.map_eq_some_iff.1 dropped
    exact Nat.le_refl _
  · obtain ⟨_, -, rfl⟩ := Option.map_eq_some_iff.1 dropped
    rfl

theorem Quiet.dropModifiersOf (e : Entity π) (source : SourceTag) :
    e.Quiet rules calls (e.dropModifiersOf source) :=
  .of_same (fun tidy => tidy.dropModifiersOf source)
    (Nat.le_of_eq (dropModifiersOf_nextHandle e source).symm) (dropModifiersOf_effects e source)

theorem Quiet.pushStack (effect : EffectName) {s : Stack π} (new : s.id = e.nextHandle) :
    e.Quiet rules calls (e.takeHandle.2.pushStack effect s) := by
  intro tidy
  have spare : e.takeHandle.2.Spare s.id := new ▸ tidy.spare
  have pushed : e.Ensues rules calls (e.takeHandle.2.pushStack effect s) :=
    .of_modify (fun live => { live with held := live.held ++ [s] }) (Nat.le_succ _) rfl
      fun _ _ => ⟨rfl, rfl⟩
  exact ⟨tidy.takeHandle.pushStack spare, pushed⟩

theorem Quiet.updateStack {effect : EffectName} {id : Handle} {s : Stack π}
    (handle : s.id = id) : e.Quiet rules calls (e.updateStack effect id s) :=
  .of_modify (fun tidy => tidy.updateStack effect handle) fun _ _ => ⟨rfl, rfl⟩

/-- The duration of a stack or a modifier may change. -/
theorem Quiet.setCondition (e : Entity π) {owner : Owner} (c : Condition π)
    (other : ∀ effect serial index, owner ≠ .custom effect serial index) :
    e.Quiet rules calls (e.setCondition owner c) := by
  cases owner with
  | modifier stat id => exact .of_same (fun tidy => tidy.setCondition _ c) (Nat.le_refl _) rfl
  | stack effect id =>
      exact .of_modify (fun tidy => tidy.setCondition (.stack effect id) c) fun _ _ => ⟨rfl, rfl⟩
  | custom effect serial index => exact absurd rfl (other effect serial index)

theorem Quiet.subscribe (e : Entity π) (owner : Owner) (interests : Interests) :
    e.Quiet rules calls (e.subscribe owner interests) :=
  .of_same (fun tidy => tidy.subscribe owner interests) (Nat.le_refl _) rfl

theorem Quiet.detachStack {effect : EffectName} {id : Handle}
    (detached : e.detachStack? effect id = some e₁) : e.Quiet rules calls e₁ := by
  intro tidy
  refine ⟨tidy.detachStack? detached,
    .of_modify (·.without [id]) ?_ (tidy.effects_detachStack? detached) fun _ _ => ⟨rfl, rfl⟩⟩
  obtain ⟨_, _, -, -, rfl⟩ := detachStack?_eq_some detached
  exact Nat.le_refl _

theorem Quiet.detachStacks (e : Entity π) (effect : EffectName) (ids : List Handle) :
    e.Quiet rules calls (e.detachStacks effect ids).2 :=
  detachStacks_induct effect (fun _ _ _ detached quiet => quiet.trans (.detachStack detached)) ids
    (.refl e)

theorem Quiet.setStacks {effect : EffectName} {live : LiveEffect π} {held : List (Stack π)}
    (found : e.effects.get? effect = some live) (drawn : List.Forall₂ Stack.Drawn held live.held) :
    e.Quiet rules calls (e.setStacks effect held) :=
  .of_modify (fun tidy => tidy.setDrawn found drawn) fun _ _ => ⟨rfl, rfl⟩

theorem Quiet.storeCount (e : Entity π) (effect : EffectName) (count : UInt32) (active : Bool) :
    e.Quiet rules calls (e.storeCount effect count active) :=
  .of_modify (fun tidy => tidy.storeCount effect count active) fun _ _ => ⟨rfl, rfl⟩

/-- A registered effect becomes live with its conditions armed. -/
theorem Quiet.addEffect (e : Entity π) (called : ∃ c, calls c) {name : EffectName}
    {d : EffectDefinition π} (registered : rules.effects.get? name = some d) (r : Readings) :
    e.Quiet rules calls (e.acquireEffect.2.addEffect { e.acquireEffect.1 with effect := d.effect }
      (d.customEffects.map fun custom => custom.condition.pristine.arm r)) := by
  intro tidy
  have blank := tidy.acquireEffect_fst
  have bare : e.acquireEffect.1.conditions = [] := congrArg LiveEffect.conditions blank
  have filed := rules.filed name d registered
  refine ⟨tidy.addNewEffect d.effect _, ?_, fun other live found => ?_⟩
  · rw [addEffect_nextHandle]
    exact Nat.le_succ _
  · rw [addEffect_effects, Table.get?_insert] at found
    split at found
    · rename_i same
      cases found
      refine .inr ⟨called, Nat.le_refl _, d, r, ?_, ?_⟩
      · rw [same, filed]
        exact registered
      · dsimp only
        rw [bare, List.nil_append]
    · exact .inl ⟨live, found, .refl live⟩

theorem Quiet.dropEffect (e : Entity π) (effect : EffectName) (live : LiveEffect π) :
    e.Quiet rules calls (e.dropEffect effect live) := by
  intro tidy
  refine ⟨tidy.dropEffect effect live, Nat.le_of_eq (dropEffect_nextHandle e effect live).symm,
    fun name other found => .inl ?_⟩
  rw [dropEffect_effects, Table.get?_erase] at found
  split at found
  · cases found
  · exact ⟨other, found, .refl other⟩

end Entity

end

omit [CustomTrigger π] in
/-- The tree that is put in the place of one that is there is found there. -/
theorem Entity.condition_setCondition_custom {e : Entity π} {effect : EffectName} {serial : Handle}
    {index : Nat} (there : e.condition (.custom effect serial index) ≠ .absent) (c : Condition π) :
    (e.setCondition (.custom effect serial index) c).condition (.custom effect serial index) = c := by
  have found : (e.setCondition (.custom effect serial index) c).effects.get? effect =
      (e.effects.get? effect).map _ := (get?_modifyEffect ..).trans (if_pos rfl)
  unfold Entity.condition at there ⊢
  dsimp only at there ⊢
  rw [found]
  cases lives : e.effects.get? effect with
  | none =>
      rw [lives] at there
      exact absurd rfl there
  | some live =>
      rw [lives] at there
      dsimp only at there
      split at there
      · rename_i same
        rw [Option.map_some, if_pos same]
        dsimp only
        rw [if_pos same]
        unfold LiveEffect.condition at there ⊢
        have within : index < live.conditions.length := by
          by_contra beyond
          exact there (List.getD_eq_default _ _ (Nat.not_lt.1 beyond))
        rw [List.getD_eq_getElem _ _ (by rw [List.length_set]; exact within), List.getElem_set_self]
      · exact absurd rfl there

/-! ### Advances -/

def Occurrence.isCustom : Occurrence π → Bool
  | .hookStarted (.custom ..) _ => true
  | .stimulated (.custom ..) .. => true
  | _ => false

def World.stirred (w : World π) (owner : Owner) (stimulus : Stimulus) (left : Condition π) : World π :=
  { w with
    entity := w.entity.setCondition owner left
    trace := .stimulated owner stimulus ((w.entity.setCondition owner left).condition owner)
        (w.entity.setCondition owner left) ::
      .consulted (w.entity.setCondition owner .absent) :: w.trace }

/-- An event sets off the action of a custom effect: it changes a result and leaves the condition
met. Nobody is told of a restart. -/
structure Stimulus.SetsOff (stimulus : Stimulus) (r : Readings) (c : Condition π) : Prop where
  told : stimulus ≠ .restart
  changed : (Engine.Stimulus.apply stimulus r c).2 = true
  met : (Engine.Stimulus.apply stimulus r c).1.holds false = true

/-- One advance of a call. A strict one leaves no event behind whose action ought to start. -/
inductive Advance (rules : Rulebook π) (calls : Call π → Prop) (strict : Prop) :
    World π → World π → Prop where
  | quiet {w w' : World π} (happened : List (Occurrence π))
      (change : w.entity.Quiet rules calls w'.entity)
      (plain : ∀ o ∈ happened, o.isCustom = false) (grown : w'.trace = happened ++ w.trace) :
      Advance rules calls strict w w'
  | stirred {w : World π} {effect : EffectName} {serial : Handle} {index : Nat}
      (stimulus : Stimulus) (r : Readings)
      (there : w.entity.condition (.custom effect serial index) ≠ .absent)
      (idle : strict → ∀ script, rules.Starts (.custom effect serial index) script →
        ¬stimulus.SetsOff r (w.entity.condition (.custom effect serial index))) :
      Advance rules calls strict w (w.stirred (.custom effect serial index) stimulus
        (Engine.Stimulus.apply stimulus r (w.entity.condition (.custom effect serial index))).1)
  | fired {w : World π} {effect : EffectName} {serial : Handle} {index : Nat}
      {stimulus : Stimulus} {r : Readings} {script : Script π Unit}
      (there : w.entity.condition (.custom effect serial index) ≠ .absent)
      (setsOff : stimulus.SetsOff r (w.entity.condition (.custom effect serial index)))
      (starts : rules.Starts (.custom effect serial index) script) :
      Advance rules calls strict w ((w.stirred (.custom effect serial index) stimulus
        (Engine.Stimulus.apply stimulus r (w.entity.condition (.custom effect serial index))).1).begin
          (.custom effect serial index))

def Course (rules : Rulebook π) (calls : Call π → Prop) (strict : Prop) :
    World π → World π → Prop :=
  Relation.ReflTransGen (Advance rules calls strict)

section

variable {rules : Rulebook π} {calls : Call π → Prop} {strict : Prop} {w w₁ w' : World π}

theorem Advance.loosen (advance : Advance rules calls strict w w') :
    Advance rules calls False w w' := by
  cases advance with
  | quiet happened change plain grown => exact .quiet happened change plain grown
  | stirred stimulus r there idle => exact .stirred stimulus r there nofun
  | fired there setsOff starts => exact .fired there setsOff starts

theorem Advance.tidy (advance : Advance rules calls strict w w') (tidy : w.entity.Tidy) :
    w'.entity.Tidy := by
  cases advance with
  | quiet happened change plain grown => exact (change tidy).1
  | @stirred effect serial index stimulus r there idle =>
      exact tidy.setCondition (.custom effect serial index) _
  | @fired effect serial index stimulus r script there setsOff starts =>
      exact tidy.setCondition (.custom effect serial index) _

namespace Course

theorem refl (w : World π) : Course rules calls strict w w := Relation.ReflTransGen.refl

theorem trans (first : Course rules calls strict w w₁) (second : Course rules calls strict w₁ w') :
    Course rules calls strict w w' :=
  Relation.ReflTransGen.trans first second

theorem of_advance (advance : Advance rules calls strict w w') : Course rules calls strict w w' :=
  Relation.ReflTransGen.single advance

theorem loosen (course : Course rules calls strict w w') : Course rules calls False w w' := by
  induction course with
  | refl => exact refl w
  | tail _ advance ih => exact ih.trans (of_advance advance.loosen)

/-- What every advance keeps, a course keeps. -/
theorem keeps (test : World π → Prop) (course : Course rules calls strict w w')
    (step : ∀ w w', w.entity.Tidy → Advance rules calls strict w w' → test w → test w')
    (tidy : w.entity.Tidy) (start : test w) : w'.entity.Tidy ∧ test w' := by
  induction course with
  | refl => exact ⟨tidy, start⟩
  | tail _ advance ih =>
      obtain ⟨tidy₁, passes⟩ := ih
      exact ⟨advance.tidy tidy₁, step _ _ tidy₁ advance passes⟩

theorem of_quiet {e : Entity π} (change : w.entity.Quiet rules calls e) :
    Course rules calls strict w { w with entity := e } :=
  of_advance (.quiet [] change (List.forall_mem_nil _) rfl)

theorem mark (w : World π) {o : Occurrence π} (plain : o.isCustom = false) :
    Course rules calls strict w { w with trace := o :: w.trace } :=
  of_advance (.quiet [o] (.refl w.entity) (List.forall_mem_singleton.2 plain) rfl)

theorem running (w : World π) (hooks : List Hook) :
    Course rules calls strict w { w with running := hooks } :=
  of_advance (.quiet [] (.refl w.entity) (List.forall_mem_nil _) rfl)

/-- A hook starts that is not the action of a custom effect. -/
theorem begin (w : World π) {hook : Hook}
    (other : ∀ effect serial index, hook ≠ .custom effect serial index) :
    Course rules calls strict w (w.begin hook) := by
  refine (running w (hook :: w.running)).trans (mark _ ?_)
  cases hook with
  | custom effect serial index => exact absurd rfl (other effect serial index)
  | _ => rfl

/-- Without a call no effect becomes live. -/
theorem absent (course : Course rules (fun _ => False) strict w w') (tidy : w.entity.Tidy)
    {effect : EffectName} (absent : w.entity.effects.get? effect = none) :
    w'.entity.effects.get? effect = none := by
  refine (course.keeps (fun w₁ => w₁.entity.effects.get? effect = none) ?_ tidy absent).2
  intro w₁ w₂ tidy₁ advance before
  have kept (other : EffectName) (serial : Handle) (index : Nat) (c : Condition π) :
      (w₁.entity.setCondition (.custom other serial index) c).effects.get? effect = none := by
    refine (Entity.get?_modifyEffect ..).trans ?_
    rw [before, Option.map_none, ite_self]
  cases advance with
  | quiet happened change plain grown =>
      refine Option.eq_none_iff_forall_ne_some.2 fun live found => ?_
      rcases (change tidy₁).2.effects effect live found with ⟨old, there, -⟩ | arises
      · rw [before] at there
        cases there
      · exact arises.called.elim fun _ => False.elim
  | @stirred other serial index stimulus r there idle => exact kept other serial index _
  | @fired other serial index stimulus r script there setsOff starts => exact kept other serial index _

end Course

end

end StatusEffects
