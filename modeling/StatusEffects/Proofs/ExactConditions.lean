import StatusEffects.Proofs.Run
import StatusEffects.Proofs.Wired

/-!
Entities at rest, which nothing that is announced changes.

A tree is exact if every node reacts to events and keeps the result that its trigger has. An
announcement lets trees look at the stats again, so where all trees are exact they stay as they are.
A tree is steady if no trigger compares with a share of what is calculated for certain stats: it
stays exact whatever is done to the modifiers of these stats.
-/

set_option autoImplicit false

namespace StatusEffects

variable {π : Type}

/-! ### Steady trees -/

structure Readings.AgreeBut (touched : StatName → Prop) (r r' : Readings) : Prop where
  current : r'.current = r.current
  computed : ∀ stat, ¬touched stat → r'.computed stat = r.computed stat

/-- The trigger does not depend on what is calculated for certain stats. Of a trigger that a game
adds nothing is known. -/
def Trigger.Steady (touched : StatName → Prop) : Trigger π → Prop
  | .countdown _ => True
  | .threshold t => t.isPercent = true → ¬touched t.stat
  | .custom _ => False

instance (touched : StatName → Prop) [DecidablePred touched] (t : Trigger π) :
    Decidable (t.Steady touched) :=
  match t with
  | .countdown _ => .isTrue trivial
  | .threshold _ => inferInstanceAs (Decidable (_ → _))
  | .custom _ => .isFalse id

namespace Condition

variable {touched : StatName → Prop} {r r' : Readings} {c : Condition π}

def Steady (touched : StatName → Prop) (c : Condition π) : Prop :=
  ∀ n ∈ c.nodes, n.trigger.Steady touched

instance (touched : StatName → Prop) [DecidablePred touched] (c : Condition π) :
    Decidable (c.Steady touched) :=
  inferInstanceAs (Decidable (∀ n ∈ c.nodes, n.trigger.Steady touched))

theorem steady_node {head : Node π} {next alternative : Condition π} :
    (node head next alternative).Steady touched ↔
      head.trigger.Steady touched ∧ next.Steady touched ∧ alternative.Steady touched := by
  simp only [Steady, nodes, List.mem_cons, List.mem_append, or_imp, forall_and, forall_eq]

theorem Steady.pristine (steady : c.Steady touched) : c.pristine.Steady touched := by
  intro n member
  rw [nodes_pristine] at member
  obtain ⟨before, present, rfl⟩ := List.mem_map.1 member
  exact steady before present

variable [CustomTrigger π]

theorem Steady.arm (steady : c.Steady touched) (r : Readings) : (c.arm r).Steady touched := by
  induction c with
  | absent => exact steady
  | node head next alternative ihNext ihAlternative =>
      obtain ⟨root, left, right⟩ := steady_node.1 steady
      rw [Condition.arm]
      split
      · exact steady
      · exact steady_node.2 ⟨root, ihNext left, ihAlternative right⟩

theorem outcome_eq {n : Node π} (steady : n.trigger.Steady touched)
    (agree : r.AgreeBut touched r') : n.outcome r' = n.outcome r := by
  unfold Node.outcome
  cases trigger : n.trigger with
  | countdown c => rfl
  | threshold t =>
      rw [trigger] at steady
      have met : t.isMet r' = t.isMet r := by
        unfold Threshold.isMet Threshold.effectiveTarget
        rw [agree.current]
        split
        · rename_i percent
          rw [agree.computed t.stat (steady percent)]
        · rfl
      change (t.isMet r' ^^ n.negated) = (t.isMet r ^^ n.negated)
      rw [met]
  | custom p =>
      rw [trigger] at steady
      exact steady.elim

/-- What a steady tree comes to when it starts does not depend on the stats that it leaves alone. -/
theorem arm_eq (steady : c.Steady touched) (agree : r.AgreeBut touched r') :
    c.arm r' = c.arm r := by
  induction c with
  | absent => rfl
  | node head next alternative ihNext ihAlternative =>
      obtain ⟨root, left, right⟩ := steady_node.1 steady
      rw [Condition.arm, Condition.arm, ihNext left, ihAlternative right]
      unfold Node.review
      rw [outcome_eq root agree]

/-! ### Exact trees -/

theorem exact_node {head : Node π} {next alternative : Condition π} :
    (node head next alternative).Exact r ↔
      (head.armed = true ∧ head.met = head.outcome r) ∧ next.Exact r ∧ alternative.Exact r := by
  unfold Exact
  rw [nodes, List.forall_mem_cons, List.forall_mem_append]

/-- A steady tree stays exact. -/
theorem Exact.of_steady (exact : c.Exact r) (steady : c.Steady touched)
    (agree : r.AgreeBut touched r') : c.Exact r' := by
  intro n member
  obtain ⟨armed, met⟩ := exact n member
  exact ⟨armed, by rw [met, outcome_eq (steady n member) agree]⟩

/-- A tree that starts is exact. -/
theorem exact_arm (unarmed : c.Unarmed) (r : Readings) : (c.arm r).Exact r :=
  fun n member => (arm_renews unarmed r n member).resolve_left List.not_mem_nil

/-- A tree that starts again for the stats that it is exact for is as it was. -/
theorem Exact.arm_pristine (exact : c.Exact r) : c.pristine.arm r = c := by
  induction c with
  | absent => rfl
  | node head next alternative ihNext ihAlternative =>
      obtain ⟨⟨armed, met⟩, left, right⟩ := exact_node.1 exact
      have root : { head.pristine.review r with armed := true } = head := by
        change (⟨head.trigger, head.negated, head.restartsOnMet, head.ignoresSourced,
          head.outcome r, true⟩ : Node π) = head
        rw [← met, ← armed]
      rw [pristine, arm, if_neg (by exact Bool.false_ne_true), ihNext left, ihAlternative right,
        root]

/-- An exact tree has nothing to learn from another look at a stat. -/
theorem Exact.observe (exact : c.Exact r) (stat : StatName) : c.observe stat r = (c, false) := by
  induction c with
  | absent => rfl
  | node head next alternative ihNext ihAlternative =>
      obtain ⟨⟨armed, met⟩, left, right⟩ := exact_node.1 exact
      have root : head.review r = head := by
        unfold Node.review
        rw [← met]
      rw [Condition.observe, if_pos armed, ihNext left, ihAlternative right, root]
      simp

end Condition

/-! ### Entities at rest -/

namespace Entity

variable {e : Entity π}

/-- A tree that is put back in its place was never away. -/
theorem setCondition_condition {owner : Owner} (there : e.condition owner ≠ .absent) :
    e.setCondition owner (e.condition owner) = e := by
  cases owner with
  | modifier stat id =>
      change ((e.modifiers.find? stat id).map Modifier.duration).getD .absent ≠ .absent at there
      change { e with modifiers := e.modifiers.modify stat id fun m =>
        { m with duration := ((e.modifiers.find? stat id).map Modifier.duration).getD .absent } } = e
      cases found : e.modifiers.find? stat id with
      | none =>
          rw [found] at there
          exact absurd rfl there
      | some m => rw [modifiers_modify_eq_self found rfl]
  | stack effect id =>
      change ((e.stack? effect id).map Stack.duration).getD .absent ≠ .absent at there
      change (e.modifyEffect effect fun live => live.modifyStack id fun s =>
        { s with duration := ((e.stack? effect id).map Stack.duration).getD .absent }) = e
      cases found : e.stack? effect id with
      | none =>
          rw [found] at there
          exact absurd rfl there
      | some s => exact modifyStack_eq_self found rfl
  | custom effect serial index =>
      change { e with effects := e.effects.modify effect fun live =>
        if live.serial = serial then
          { live with conditions := live.conditions.set index (e.condition _) }
        else live } = e
      rw [Table.modify_eq_self]
      intro live lives
      split
      · rename_i same
        have tree : e.condition (.custom effect serial index) = live.conditions.getD index .absent := by
          unfold Entity.condition
          dsimp only
          rw [lives]
          exact if_pos same
        have placed : live.conditions.set index (live.conditions.getD index .absent) =
            live.conditions := by
          by_cases inside : index < live.conditions.length
          · rw [List.getD_eq_getElem?_getD, List.getElem?_eq_getElem inside, Option.getD_some,
              List.set_getElem_self]
          · exact List.set_eq_of_length_le (Nat.le_of_not_lt inside)
        rw [tree, placed]
      · rfl

variable [CustomTrigger π] {rules : Rulebook π}

def AtRest (rules : Rulebook π) (e : Entity π) : Prop :=
  ∀ owner c gate, e.Bears owner c gate → c.Exact (rules.readings e)

theorem AtRest.condition (rest : e.AtRest rules) (owner : Owner) :
    (e.condition owner).Exact (rules.readings e) := by
  by_cases there : e.condition owner = .absent
  · rw [there]
    exact fun _ member => (List.not_mem_nil member).elim
  · obtain ⟨gate, bears⟩ := bears_of_present there
    exact rest owner _ gate bears

end Entity

namespace Engine

open Act

variable [CustomTrigger π] {rules : Rulebook π} {e : Entity π} (plain : rules.statRules = ∅)

include plain

/-- An event leaves in the place of a tree what it makes of it. -/
theorem stimulate_applies {owner : Owner} (there : e.condition owner ≠ .absent) {stimulus : Stimulus}
    {c : Condition π} {changed : Bool}
    (applied : Stimulus.apply stimulus (rules.readings e) (e.condition owner) = (c, changed)) :
    (stimulate rules owner stimulus).Brings e changed (e.setCondition owner c) := by
  have readings : rules.readings (e.setCondition owner .absent) = rules.readings e :=
    Rulebook.readings_eq plain fun stat => Entity.sameAt_setCondition e owner .absent stat
  have looks : (updateCondition rules owner (Stimulus.apply stimulus)).Brings e (some changed)
      (e.setCondition owner c) := by
    unfold updateCondition
    refine .bind (.entity e) ?_
    cases tree : e.condition owner with
    | absent => exact absurd tree there
    | node head next alternative =>
        rw [tree] at applied
        refine .bind (.modifyEntity _ e) (.bind (.consulted _) ?_)
        rw [readings, applied]
        refine .bind (.modifyEntity _ _) ?_
        rw [Entity.setCondition_setCondition]
        exact .pure (some changed) _
  exact looks.bind (.bind (.record _ _) (.pure changed _))

variable (rest : e.AtRest rules)

include rest

/-- At rest a tree learns nothing from a change of a stat. -/
theorem stimulate_brings (owner : Owner) (stat : StatName) :
    (stimulate rules owner (.stat stat)).Brings e false e := by
  by_cases absent : e.condition owner = .absent
  · have looks : (updateCondition rules owner (Stimulus.apply (.stat stat))).Brings e none e := by
      unfold updateCondition
      refine .bind (.entity e) ?_
      rw [absent]
      exact .pure none e
    exact looks.bind (.pure false e)
  · have unmoved : Stimulus.apply (.stat stat) (rules.readings e) (e.condition owner) =
        (e.condition owner, false) :=
      (rest.condition owner).observe stat
    have learns := stimulate_applies plain absent unmoved
    rwa [Entity.setCondition_condition absent] at learns

theorem expose_brings (nested : Nested π) (owner : Owner) (stat : StatName) :
    (expose nested rules owner (.stat stat)).Brings e () e :=
  (stimulate_brings plain rest owner stat).bind (.pure () e)

/-- At rest an announcement changes nothing, and needs no deeper nesting. -/
theorem announce_brings {levels : Nat} (positive : 0 < levels) (stat : StatName) :
    (serve rules levels (.announce stat)).Brings e () e := by
  obtain ⟨lower, rfl⟩ : ∃ lower, levels = lower + 1 := ⟨levels - 1, by omega⟩
  change (announceStat (serve rules lower) rules stat).Brings e () e
  unfold announceStat
  refine .bind (.record _ e) (.bind (.entity e) ?_)
  have round (owner : Owner) (e' : Entity π) (same : e' = e) : ∃ e₁, Brings (do
      if owner ∈ (← Act.entity).watchers.get stat then
        expose (serve rules lower) rules owner (.stat stat)) e' () e₁ ∧ e₁ = e := by
    rw [same]
    refine ⟨e, .bind (.entity e) ?_, rfl⟩
    split
    · exact expose_brings plain rest _ owner stat
    · exact .pure () e
  obtain ⟨e', brings, rfl⟩ := Brings.forM (fun _ e' => e' = e) (e.watchers.get stat)
    (fun _ owner _ e' _ same => round owner e' same) rfl
  exact brings

end Engine

end StatusEffects
