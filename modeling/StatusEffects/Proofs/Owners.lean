import StatusEffects.Proofs.Subscriptions

/-!
What somebody owns goes only when its owner, or somebody who knows its handle, asks for it.

A modifier with a source that is no effect, and a stack with a source, outlive their durations, flips
of their effects, immunity, and whatever is merged into or drawn from other stacks. All that changes
about them is whether they are active and how far their durations have come.
-/

set_option autoImplicit false

namespace StatusEffects

variable {π : Type}

def Call.takes : Call π → Bool
  | .removeModifier _ | .removeModifiersOf _ | .replaceStack .. | .removeStack .. | .removeStacksOf ..
  | .removeEffect _ => true
  | _ => false

variable [CustomTrigger π]

namespace Entity

/-- Owned entries that the calls leave are still there. -/
structure Retains (calls : Call π → Prop) (e e' : Entity π) : Prop where
  modifiers : ∀ stat, ∀ m ∈ e.modifiers.get stat, m.Spared calls →
    ∃ m' ∈ e'.modifiers.get stat, m.Proceeds m'
  owned : ∀ effect, ¬calls (.removeEffect effect) → ∀ s ∈ e.held effect, s.Spared calls effect →
    ∃ s' ∈ e'.held effect, s.Proceeds s'

variable {calls : Call π → Prop} {e e₁ e₂ e' : Entity π} {effect : EffectName}

theorem Retains.refl (e : Entity π) : e.Retains calls e :=
  ⟨fun _ m member _ => ⟨m, member, .refl m⟩, fun _ _ s member _ => ⟨s, member, .refl s⟩⟩

theorem Retains.trans (first : e.Retains calls e₁) (second : e₁.Retains calls e₂) :
    e.Retains calls e₂ := by
  refine ⟨fun stat m member spared => ?_, fun effect stays s member spared => ?_⟩
  · obtain ⟨m₁, member₁, proceeds₁⟩ := first.modifiers stat m member spared
    obtain ⟨m₂, member₂, proceeds₂⟩ :=
      second.modifiers stat m₁ member₁ (spared.proceeds proceeds₁)
    exact ⟨m₂, member₂, proceeds₁.trans proceeds₂⟩
  · obtain ⟨s₁, member₁, proceeds₁⟩ := first.owned effect stays s member spared
    obtain ⟨s₂, member₂, proceeds₂⟩ :=
      second.owned effect stays s₁ member₁ (spared.proceeds proceeds₁)
    exact ⟨s₂, member₂, proceeds₁.trans proceeds₂⟩

theorem Spares.retains (spares : e.Spares calls e') : e.Retains calls e' :=
  ⟨spares.modifiers, fun effect _ s member spared =>
    spares.held effect s member spared.isSourced⟩

theorem Restacks.retains (restacks : e.Restacks calls effect e') : e.Retains calls e' := by
  refine ⟨fun stat m member _ => ⟨m, restacks.modifiers ▸ member, .refl m⟩,
    fun name _ s member spared => ?_⟩
  by_cases here : name = effect
  · subst here
    exact restacks.held s member spared
  · exact ⟨s, restacks.others name here ▸ member, .refl s⟩

/-- What leaves the modifiers and all stacks in their places. -/
theorem Retains.of_held (modifiers : e'.modifiers = e.modifiers)
    (held : ∀ effect, ¬calls (.removeEffect effect) → e'.held effect = e.held effect) :
    e.Retains calls e' :=
  ⟨fun _ m member _ => ⟨m, modifiers ▸ member, .refl m⟩,
    fun effect stays s member _ => ⟨s, held effect stays ▸ member, .refl s⟩⟩

/-- A live effect goes that has no stacks, or for which a call asks. -/
theorem Retains.dropEffect {live : LiveEffect π} (found : e.effects.get? effect = some live)
    (cause : live.held = [] ∨ calls (.removeEffect effect)) :
    e.Retains calls (e.dropEffect effect live) := by
  refine .of_held (dropEffect_stats e effect live).2 fun name stays => ?_
  rw [held_dropEffect]
  split
  · rename_i here
    subst here
    rw [held_of_found found, cause.resolve_right stays]
  · rfl

end Entity

def Safeguards (calls : Call π → Prop) (w w' : World π) : Prop :=
  w.entity.Attended → w'.entity.Attended ∧ w.entity.Retains calls w'.entity

namespace Safeguards

variable {calls : Call π → Prop}

theorem steady (calls : Call π → Prop) : Act.Steady (Safeguards calls) where
  refl w attended := ⟨attended, .refl w.entity⟩
  trans first second attended := by
    obtain ⟨attended₂, retains⟩ := first attended
    obtain ⟨attended₃, retains'⟩ := second attended₂
    exact ⟨attended₃, retains.trans retains'⟩

/-- Nothing happens to the entity. -/
theorem still {w w' : World π} (same : w'.entity = w.entity) : Safeguards calls w w' := by
  intro attended
  rw [same]
  exact ⟨attended, .refl w.entity⟩

end Safeguards

namespace Engine

open Act

variable {rules : Rulebook π} {nested : Nested π} {calls : Call π → Prop}

theorem passTime_safeguards (reacts : ∀ owner, (react nested rules owner).Keeps (Safeguards calls))
    (delta : Float32) : (passTime nested rules delta).Keeps (Safeguards calls) := by
  refine passTime_paces (Safeguards.steady calls) (fun moves spares _ attended => ?_)
    (fun change walk w attended => ?_) reacts delta
  · exact ⟨moves.attended attended, (spares calls).retains⟩
  · exact ⟨attended.walks walk, .of_held rfl fun _ _ => rfl⟩

/-- Calls that are served take only what they ask for, if hooks make no other calls. -/
theorem follows_safeguards
    (made : ∀ hook script c, rules.Starts hook script → script.Makes c → calls c) :
    Follows rules calls (Safeguards calls) fun _ => Safeguards calls := by
  have steady := Safeguards.steady calls
  have begins (w : World π) (hook : Hook) : Safeguards calls w (w.begin hook) := .still rfl
  have gone {w : World π} {effect : EffectName} {live : LiveEffect π}
      (found : w.entity.effects.get? effect = some live)
      (cause : live.held = [] ∨ calls (.removeEffect effect)) :
      Safeguards calls w (Gone effect live w) :=
    fun attended => ⟨attended.dropEffect found, .dropEffect found cause⟩
  refine
    { steady := steady
      loose := fun _ => steady
      loosen := id
      tighten := fun before => steady.trans before (.still rfl)
      told := ?_
      restacked := ?_
      flipped := ?_
      dropped := fun found cause _ => gone found cause
      ended := ?_
      started := fun _ _ w => begins w _
      running := fun w hooks => .still rfl
      called := fun _ _ _ _ _ _ => .still rfl
      uncalled := fun _ _ _ starts _ makes other => absurd (made _ _ _ starts makes) other
      passes := fun _ => passTime_safeguards }
  · intro w w' stats e asides moves spares _ told
    refine steady.trans (fun attended => ?_) (told.steady steady fun w stat => .still rfl)
    exact ⟨moves.attended attended, (spares attended.tidy).retains⟩
  · intro w effect e asides moves restacks _ attended
    exact ⟨moves.attended attended, (restacks attended.tidy).retains⟩
  · intro w w' effect live count active asides found changes _ ran
    have heard : Safeguards calls w' (Heard effect w') := .still rfl
    refine steady.trans (steady.trans (fun attended => ?_) (ran.steady steady begins)) heard
    exact ⟨attended.storeCount effect count active,
      .of_held rfl fun name _ => Entity.held_storeCount _ effect name count active⟩
  · intro w w₁ w₂ effect live found cause _ removed ran
    have heard : Safeguards calls w₂ (Heard effect w₂) := .still rfl
    exact steady.trans
      (steady.trans (steady.trans (gone found cause) removed) (ran.steady steady begins)) heard

end Engine

/-- Across every call, a modifier with a source that is no effect stays, but for its activity and the
progress of its duration, unless the call takes it out by its handle or by its source; and a stack with
a source stays likewise, unless the call takes it out by its handle, takes out or replaces the stacks
of its source, or takes out its effect. The hooks of the rules, if there are any, make no calls of
these kinds. -/
theorem sourced_entries_kept {rules : Rulebook π}
    (hooks : ∀ hook script c, rules.Starts hook script → script.Makes c → c.takes = false)
    {snapshots : Snapshot → Prop} {calls : Entity π → Call π → Prop} {levels : Nat} {c : Call π}
    {reply : c.Reply} {w w' : World π} (reached : Reached rules snapshots calls w)
    (returns : Engine.perform rules levels c w = .ok reply w') :
    (∀ stat, ∀ m ∈ w.entity.modifiers.get stat, ∀ source, m.source = some source →
      source.isOfEffect = false → c ≠ .removeModifier m.id → c ≠ .removeModifiersOf source →
        ∃ m' ∈ w'.entity.modifiers.get stat, m.Proceeds m') ∧
    ∀ effect live, w.entity.effects.get? effect = some live → ∀ s ∈ live.held, ∀ source,
      s.source = some source → c ≠ .removeStack effect s.id → c ≠ .removeStacksOf effect source →
        (∀ other, c ≠ .replaceStack effect other source) → c ≠ .removeEffect effect →
          ∃ live', w'.entity.effects.get? effect = some live' ∧ ∃ s' ∈ live'.held, s.Proceeds s' := by
  let served : Call π → Prop := fun other => other = c ∨ other.takes = false
  have unserved {other : Call π} (takes : other.takes = true) (different : c ≠ other) :
      ¬served other := by
    rintro (rfl | harmless)
    · exact different rfl
    · rw [takes] at harmless
      cases harmless
  have follows : Engine.Follows rules served (Safeguards served) fun _ => Safeguards served :=
    Engine.follows_safeguards fun hook script c starts makes =>
      .inr (hooks hook script c starts makes)
  obtain ⟨-, retains⟩ := Engine.perform_follows follows levels c (.inl rfl) w reply w' returns
    reached.attended.1
  refine ⟨fun stat m member source owner foreign byHandle bySource => ?_,
    fun effect live found s member source owner byHandle bySource replaced whole => ?_⟩
  · exact retains.modifiers stat m member
      ⟨⟨source, owner, foreign, unserved rfl bySource⟩, unserved rfl byHandle⟩
  · rw [← Entity.held_of_found found] at member
    obtain ⟨s', stays, proceeds⟩ := retains.owned effect (unserved rfl whole) s member
      ⟨⟨source, owner, unserved rfl bySource, fun other => unserved rfl (replaced other)⟩,
        unserved rfl byHandle⟩
    unfold Entity.held at stays
    cases there : w'.entity.effects.get? effect with
    | none =>
        rw [there] at stays
        cases stays
    | some live' =>
        rw [there] at stays
        exact ⟨live', rfl, s', stays, proceeds⟩

def ember : EffectDefinition Empty :=
  { EffectDefinition.ofName "ember" with
    stacking := .separate
    onDeactivate := some fun effect => do let _ ← Script.request (.reduceStacks effect 1) }

def emberRules : Rulebook Empty :=
  ((Rulebook.builtin.registerEffect ember).toOption).getD .builtin

theorem emberRules_hooks {hook : Hook} {script : Script Empty Unit} {c : Call Empty}
    (starts : emberRules.Starts hook script) (makes : script.Makes c) : c.takes = false := by
  have only {name : EffectName} {d : EffectDefinition Empty}
      (registered : emberRules.effects.get? name = some d) : d = ember := by
    change ((∅ : Table (EffectDefinition Empty)).insert "ember" ember).get? name = _ at registered
    rw [Table.get?_insert] at registered
    split at registered
    · cases registered
      rfl
    · cases registered
  cases starts with
  | activated registered there => cases only registered; cases there
  | deactivated registered there =>
      cases only registered
      cases there
      cases makes with
      | here => rfl
      | called later => cases later
  | stackAdded registered there => cases only registered; cases there
  | custom registered there => cases only registered; cases there
  | modified registered => cases registered

def ringCalls : List (Call Empty) :=
  [.addModifier { (.ofParts "health" .add 10 : Modifier Empty) with duration := .timed 5 }
      (some "ring"),
    .addStack "ember" { (Stack.ofValue 2 : Stack Empty) with duration := .timed 5 } (some "ring"),
    .addStack "ember" { (Stack.ofValue 1 : Stack Empty) with duration := .timed 5 } none]

/-- When the time is over, the ember loses the stack of nobody and ceases to apply, and its hook draws
on what is left; what the ring gave is still there. -/
theorem ring_kept : ∃ (w w' : World Empty) (live live' : LiveEffect Empty) (m m' : Modifier Empty)
    (s s' : Stack Empty), Reached emberRules (fun _ => True) (fun _ _ => True) w ∧
      Engine.perform emberRules 6 (.passTime 10) w = .ok () w' ∧
      w.entity.effects.get? "ember" = some live ∧ w'.entity.effects.get? "ember" = some live' ∧
      m ∈ w.entity.modifiers.get "health" ∧ m.source = some "ring" ∧
      m' ∈ w'.entity.modifiers.get "health" ∧ m.Proceeds m' ∧
      s ∈ live.held ∧ s.source = some "ring" ∧ s' ∈ live'.held ∧ s.Proceeds s' := by
  have made : ((Engine.performAll emberRules 6 ringCalls (.ofEntity .new)).any fun w =>
      ((w.entity.modifiers.get "health").any fun m => m.source = some "ring") &&
        ((w.entity.effects.get? "ember").any fun live =>
          live.held.any fun s => s.source = some "ring") &&
        (Engine.performAll emberRules 6 [.passTime 10] w).isSome) = true := by
    decide +kernel
  obtain ⟨w, run, checked⟩ := (Option.any_eq_true ..).1 made
  rw [Bool.and_eq_true, Bool.and_eq_true] at checked
  obtain ⟨⟨given, kindled⟩, ends⟩ := checked
  obtain ⟨m, listed, ofRing⟩ := List.any_eq_true.1 given
  obtain ⟨live, found, held⟩ := (Option.any_eq_true ..).1 kindled
  obtain ⟨s, member, owned⟩ := List.any_eq_true.1 held
  have reached : Reached emberRules (fun _ => True) (fun _ _ => True) w :=
    Engine.reached_of_performAll .new (fun _ _ _ => trivial) run
  have foreign : SourceTag.isOfEffect "ring" = false := by decide +kernel
  cases returns : Engine.perform emberRules 6 (.passTime 10) w with
  | error stop w' =>
      rw [Engine.performAll, returns] at ends
      cases ends
  | ok reply w' =>
      obtain ⟨modifiers, stacked⟩ :=
        sourced_entries_kept (fun _ _ _ => emberRules_hooks) reached returns
      obtain ⟨m', listed', kept⟩ := modifiers "health" m listed "ring" (of_decide_eq_true ofRing)
        foreign (by simp) (by simp)
      obtain ⟨live', found', s', member', kept'⟩ := stacked "ember" live found s member "ring"
        (of_decide_eq_true owned) (by simp) (by simp) (by simp) (by simp)
      exact ⟨w, w', live, live', m, m', s, s', reached, returns, found, found', listed,
        of_decide_eq_true ofRing, listed', kept, member, of_decide_eq_true owned, member', kept'⟩

end StatusEffects
