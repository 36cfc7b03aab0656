import StatusEffects.Proofs.Dependencies
import StatusEffects.Proofs.Sweep

/-!
The interests of a tree are all that it reacts to.

An event is a sweep over the nodes, and a node that does not depend on an event is left as it is. So
what is missing among the interests is an event that changes nothing in the tree, in whatever state
its nodes are, and no owner has to hear of it.
-/

set_option autoImplicit false

namespace StatusEffects

variable {π : Type} [CustomTrigger π]

/-! ### Single nodes -/

namespace Node

theorem elapse_of_timeless {n : Node π} (timeless : n.trigger.usesTimer = false) (delta : Float32)
    (r : Readings) : n.elapse delta r = n := by
  unfold elapse
  rw [timeless, if_neg Bool.false_ne_true]

theorem notice_of_unwatched {n : Node π} {stat : StatName} (unwatched : n.trigger.watched ≠ some stat)
    (r : Readings) : n.notice stat r = n := by
  unfold notice
  rw [if_neg unwatched]

end Node

namespace Condition

variable {c : Condition π} {stat : StatName}

/-! ### Events of which no node hears -/

omit [CustomTrigger π] in
/-- A sweep that leaves each node as it is changes nothing, wherever it stops. -/
theorem sweep_eq_self {change : Node π → Node π} (same : ∀ n ∈ c.nodes, change n = n) :
    c.sweep change = (c, false) := by
  induction c with
  | absent => rfl
  | node head next alternative ihNext ihAlternative =>
      rw [nodes, List.forall_mem_cons, List.forall_mem_append] at same
      obtain ⟨root, left, right⟩ := same
      rw [sweep, root, ihNext left, ihAlternative right]
      split
      · rw [bne_self_eq_false]
        rfl
      · rfl

theorem tick_of_timeless (timeless : ¬c.UsesTimer) (delta : Float32) (r : Readings) :
    c.tick delta r = (c, false) := by
  rw [tick_eq_sweep]
  refine sweep_eq_self fun n member => Node.elapse_of_timeless ?_ delta r
  rw [← Bool.not_eq_true]
  exact fun uses => timeless ⟨n, member, uses⟩

theorem observe_of_unwatched (unwatched : ¬c.Watches stat) (r : Readings) :
    c.observe stat r = (c, false) := by
  rw [observe_eq_sweep]
  exact sweep_eq_self fun n member =>
    Node.notice_of_unwatched (fun watches => unwatched ⟨n, member, watches⟩) r

/-! ### Trees that hang at the end of others -/

omit [CustomTrigger π] in
theorem exists_node_orElse {c other : Condition π} {test : Node π → Prop} :
    (∃ n ∈ (c.orElse other).nodes, test n) ↔
      (∃ n ∈ c.nodes, test n) ∨ ∃ n ∈ other.nodes, test n := by
  rw [nodes_orElse]
  simp only [List.mem_append, or_and_right, exists_or]

theorem interests_orElse_timer (c other : Condition π) :
    (c.orElse other).interests.timer = (c.interests.timer || other.interests.timer) := by
  rw [Bool.eq_iff_iff, Bool.or_eq_true, interests_timer, interests_timer, interests_timer]
  exact exists_node_orElse

theorem interests_orElse_stats (c other : Condition π) (stat : StatName) :
    (c.orElse other).interests.stats.contains stat =
      (c.interests.stats.contains stat || other.interests.stats.contains stat) := by
  rw [Bool.eq_iff_iff, Bool.or_eq_true, interests_stats, interests_stats, interests_stats]
  exact exists_node_orElse

/-- In whatever state a tree is, time that is not among its interests and a stat that is not among
them change nothing in it. Its interests are those of its nodes, and when another tree hangs at the
end of its chain of `or` branches they are those of both. -/
theorem interests_complete (c : Condition π) :
    (c.interests.timer = false → ∀ delta r, c.tick delta r = (c, false)) ∧
    (∀ stat, c.interests.stats.contains stat = false → ∀ r, c.observe stat r = (c, false)) ∧
    (c.interests.timer = true ↔ ∃ n ∈ c.nodes, n.trigger.usesTimer = true) ∧
    (∀ stat, c.interests.stats.contains stat = true ↔
      ∃ n ∈ c.nodes, n.trigger.watched = some stat) ∧
    ∀ other : Condition π,
      (c.orElse other).interests.timer = (c.interests.timer || other.interests.timer) ∧
      ∀ stat, (c.orElse other).interests.stats.contains stat =
        (c.interests.stats.contains stat || other.interests.stats.contains stat) := by
  refine ⟨fun still delta r => tick_of_timeless ?_ delta r,
    fun stat unlisted r => observe_of_unwatched ?_ r, interests_timer, fun _ => interests_stats,
    fun other => ⟨interests_orElse_timer c other, interests_orElse_stats c other⟩⟩
  · rw [← interests_timer, still]
    exact Bool.false_ne_true
  · rw [← interests_stats, unlisted]
    exact Bool.false_ne_true

/-- Ends something when there is much mana or the health is below what it could be. The root has been
started and the other node has not. -/
def overflow : Condition Scenario.ExtraTrigger :=
  .node ⟨.threshold ⟨"mana", .greaterEquals, 5, false⟩, false, false, false, true, true⟩ .absent
    (.ofTrigger (.custom (.below "health")))

/-- Neither time nor a third stat matters to it, also where what it keeps is out of date. -/
theorem overflow_complete : overflow.interests.timer = false ∧
    overflow.tick 7 (pool 3) = (overflow, false) ∧
    overflow.interests.stats.contains "stamina" = false ∧
    overflow.observe "stamina" (pool 3) = (overflow, false) ∧
    overflow.observe "mana" (pool 3) ≠ (overflow, false) ∧
    (overflow.orElse (.timed 2)).interests.timer = true := by
  obtain ⟨timeless, unwatched, -, -, joined⟩ := interests_complete overflow
  have still : overflow.interests.timer = false := by decide +kernel
  have unlisted : overflow.interests.stats.contains "stamina" = false := by decide +kernel
  refine ⟨still, timeless still 7 (pool 3), unlisted, unwatched "stamina" unlisted (pool 3),
    by decide +kernel, ?_⟩
  rw [(joined (.timed 2)).1, still, Bool.false_or]
  decide +kernel

end Condition

end StatusEffects
