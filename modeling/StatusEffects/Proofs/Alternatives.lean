import StatusEffects.Engine.Effects
import StatusEffects.Proofs.ExactConditions

/-!
Trees in the place of an `or` branch: what a tree comes to when another one hangs at the end of its
chain of `or` branches.

A node that passes hands over to its `and` branch and never comes back, so the chain is read up to
its first node that passes. If there is one, the tree that hangs at the end is never looked at;
otherwise it decides alone.
-/

set_option autoImplicit false

namespace StatusEffects

variable {π : Type}

namespace Condition

/-- The nodes along the chain of `or` branches from the root on. -/
def spine : Condition π → List (Node π)
  | .absent => []
  | .node head _ alternative => head :: alternative.spine

/-- Whether a node along the chain of `or` branches hands over to its `and` branch. -/
def handsOver (c : Condition π) (sourced : Bool) : Bool := c.spine.any fun n => n.passes sourced

theorem holds_node (head : Node π) (next alternative : Condition π) (sourced : Bool) :
    (node head next alternative).holds sourced =
      if head.passes sourced then next.verdict sourced true else alternative.holds sourced := rfl

theorem handsOver_node (head : Node π) (next alternative : Condition π) (sourced : Bool) :
    (node head next alternative).handsOver sourced =
      (head.passes sourced || alternative.handsOver sourced) := rfl

/-- A tree that never hands over is not met. -/
theorem holds_of_handsOver {c : Condition π} {sourced : Bool}
    (never : c.handsOver sourced = false) : c.holds sourced = false := by
  induction c with
  | absent => rfl
  | node head next alternative _ ih =>
      rw [handsOver_node, Bool.or_eq_false_iff] at never
      obtain ⟨fails, rest⟩ := never
      rw [holds_node, fails]
      exact ih rest

/-- Whatever its branches are, a tree with another one at the end of its chain of `or` branches comes
to what it came to before if it hands over along the chain, and else to what the other one comes to. -/
theorem holds_orElse (t u : Condition π) (sourced : Bool) :
    (t.orElse u).holds sourced =
      if t.handsOver sourced then t.holds sourced else u.holds sourced := by
  induction t with
  | absent => rfl
  | node head next alternative _ ih =>
      rw [orElse, holds_node, holds_node, handsOver_node, ih]
      cases head.passes sourced with
      | true => rfl
      | false => rfl

theorem orElse_absent (c : Condition π) : c.orElse .absent = c := by
  induction c with
  | absent => rfl
  | node head next alternative _ ih => rw [orElse, ih]

theorem holds_orElse_of_left {t : Condition π} (u : Condition π) {sourced : Bool}
    (met : t.holds sourced = true) : (t.orElse u).holds sourced = true := by
  rw [holds_orElse]
  cases hands : t.handsOver sourced with
  | true => exact met
  | false =>
      rw [holds_of_handsOver hands] at met
      cases met

theorem holds_of_orElse {t u : Condition π} {sourced : Bool}
    (met : (t.orElse u).holds sourced = true) : t.holds sourced = true ∨ u.holds sourced = true := by
  rw [holds_orElse] at met
  split at met
  · exact .inl met
  · exact .inr met

/-- Two trees that are not met are not met one after the other. -/
theorem holds_orElse_eq_false {t u : Condition π} {sourced : Bool}
    (left : t.holds sourced = false) (right : u.holds sourced = false) :
    (t.orElse u).holds sourced = false := by
  rw [holds_orElse, left, right, ite_self]

end Condition

namespace Engine

variable [CustomTrigger π]

/-- Unless time is added to a countdown, a duration grows by the other one hanging at the end of its
chain of `or` branches, started for the stats as they are. -/
theorem mergedDuration_extend {r : Readings} {t u : Condition π}
    (composes : t.countdown? = none ∨ u.countdown? = none) :
    mergedDuration .extend r t u = t.orElse (u.pristine.arm r) := by
  cases u with
  | absent => exact (Condition.orElse_absent t).symm
  | node head next alternative =>
      change extendDuration r t (.node head next alternative) = _
      unfold extendDuration
      rcases composes with other | other
      · rw [other]
      · rw [other]
        cases t.countdown? with
        | none => rfl
        | some c => rfl

end Engine

open Condition

/-- A tree with another one at the end of its chain of `or` branches, with whatever results its nodes
keep: if a node along the chain passes, it comes to what it came to before, else to what the other
one comes to. So it is met only if one of the two is, and it is met if the first one is. A duration
that grows by another one, where not both are countdowns, is such a tree: if neither the duration nor
the other one as it starts is met, it is not met, and the other one starts as it is if it has been
started for these stats. -/
theorem orElse_reads_the_chain_first [CustomTrigger π] (t u : Condition π) (sourced : Bool) :
    ((t.orElse u).holds sourced =
      if ∃ n ∈ t.spine, n.passes sourced = true then t.holds sourced else u.holds sourced) ∧
    ((t.orElse u).holds sourced = true → t.holds sourced = true ∨ u.holds sourced = true) ∧
    (t.holds sourced = true → (t.orElse u).holds sourced = true) ∧
    ∀ r, t.countdown? = none ∨ u.countdown? = none → t.holds sourced = false →
      (u.pristine.arm r).holds sourced = false ∨ u.Exact r ∧ u.holds sourced = false →
        (Engine.mergedDuration .extend r t u).holds sourced = false := by
  refine ⟨?_, holds_of_orElse, holds_orElse_of_left u, fun r composes left right => ?_⟩
  · rw [holds_orElse]
    unfold handsOver
    simp only [List.any_eq_true]
  · have unmet : (u.pristine.arm r).holds sourced = false := by
      rcases right with starts | ⟨started, unmet⟩
      · exact starts
      · rw [started.arm_pristine]
        exact unmet
    rw [Engine.mergedDuration_extend composes]
    exact holds_orElse_eq_false left unmet

def halfFull : Readings := ⟨fun _ => 50, fun _ => 100⟩

def lowMana : Condition Empty := (ofTrigger (.threshold ⟨"mana", .less, 10, false⟩)).arm halfFull

def threeSeconds : Condition Empty := (timed 3).arm halfFull

/-- What lasts until the mana is low grows by three seconds, neither of which is over. -/
theorem low_mana_grows : lowMana.holds false = false ∧ threeSeconds.holds false = false ∧
    Engine.mergedDuration .extend halfFull lowMana threeSeconds =
      lowMana.orElse threeSeconds ∧
    (Engine.mergedDuration .extend halfFull lowMana threeSeconds).holds false = false := by
  have unmet : lowMana.holds false = false ∧ threeSeconds.holds false = false := by decide +kernel
  have started : threeSeconds.Exact halfFull := exact_arm (by decide +kernel) halfFull
  refine ⟨unmet.1, unmet.2, ?_, ?_⟩
  · rw [Engine.mergedDuration_extend (.inl rfl), started.arm_pristine]
  · obtain ⟨-, -, -, grows⟩ := orElse_reads_the_chain_first lowMana threeSeconds false
    exact grows halfFull (.inl rfl) unmet.1 (.inr ⟨started, unmet.2⟩)

/-- A node that passes never comes back to its `or` branch: the first tree hands over to a branch that
fails, and the second one is met to no avail. -/
example :
    let passed : Node Empty := ⟨.countdown (.ofDuration 0), false, false, false, true, true⟩
    let t : Condition Empty := .node passed lowMana .absent
    let u : Condition Empty := .node passed .absent .absent
    u.holds false = true ∧ (t.orElse u).holds false = false := by
  decide +kernel

end StatusEffects
