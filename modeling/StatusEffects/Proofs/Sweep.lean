import Mathlib.Data.Tree.Basic
import StatusEffects.Proofs.ExactConditions
import StatusEffects.Scenario.Trigger

/-!
What an event does to a whole condition tree.

Every event changes each node that hears it by itself and leaves the form of the tree alone, so it
is a map over the nodes. The two events that say whether a result changed are sweeps: a sweep stops
at nodes that do not react to events, but never at a result that changed.
-/

set_option autoImplicit false

namespace StatusEffects

variable {π : Type}

/-! ### Single nodes -/

def Node.flags (n : Node π) : Bool × Bool × Bool :=
  (n.negated, n.restartsOnMet, n.ignoresSourced)

section

variable [CustomTrigger π]

namespace Node

def elapse (delta : Float32) (r : Readings) (n : Node π) : Node π :=
  if n.trigger.usesTimer then (n.tick delta).review r else n

def notice (stat : StatName) (r : Readings) (n : Node π) : Node π :=
  if n.trigger.watched = some stat then n.review r else n

def start (r : Readings) (n : Node π) : Node π := { n.review r with armed := true }

@[simp] theorem flags_elapse (delta : Float32) (r : Readings) (n : Node π) :
    (n.elapse delta r).flags = n.flags := by
  unfold elapse
  split
  · rfl
  · rfl

@[simp] theorem flags_notice (stat : StatName) (r : Readings) (n : Node π) :
    (n.notice stat r).flags = n.flags := by
  unfold notice
  split
  · rfl
  · rfl

@[simp] theorem flags_restart (r : Readings) (n : Node π) : (n.restart r).flags = n.flags := by
  unfold restart
  dsimp only
  split
  · rfl
  · rfl

end Node

end

/-! ### Trees node by node -/

namespace Condition

/-- What there is to see of each node, in its place in the tree. -/
def chart {α : Type} (view : Node π → α) : Condition π → BinaryTree α
  | .absent => .nil
  | .node head next alternative => .node (view head) (next.chart view) (alternative.chart view)

def frame (c : Condition π) : BinaryTree (Bool × Bool × Bool) := c.chart Node.flags

def results (c : Condition π) : BinaryTree Bool := c.chart Node.met

theorem chart_map {α : Type} {view : Node π → α} {change : Node π → Node π}
    (keeps : ∀ n, view (change n) = view n) (c : Condition π) :
    (c.map change).chart view = c.chart view := by
  induction c with
  | absent => rfl
  | node head next alternative ihNext ihAlternative =>
      simp only [map, chart, keeps, ihNext, ihAlternative]

theorem frame_disarm (c : Condition π) : c.disarm.frame = c.frame := by
  induction c with
  | absent => rfl
  | node head next alternative ihNext ihAlternative =>
      rw [disarm]
      split
      · unfold frame at ihNext ihAlternative ⊢
        rw [chart, chart, ihNext, ihAlternative]
        rfl
      · rfl

/-! ### Sweeps -/

/-- Changes the nodes that react to events; says whether any result changed. -/
def sweep (change : Node π → Node π) : Condition π → Condition π × Bool
  | .absent => (.absent, false)
  | .node head next alternative =>
    if head.armed then
      (.node (change head) (next.sweep change).1 (alternative.sweep change).1,
        ((change head).met != head.met) || (next.sweep change).2 || (alternative.sweep change).2)
    else (.node head next alternative, false)

section

variable {change : Node π → Node π}

/-- A sweep reaches every node of an armed tree. -/
theorem sweep_of_armed {c : Condition π} (armed : c.Armed) :
    (c.sweep change).1 = c.map change := by
  induction c with
  | absent => rfl
  | node head next alternative ihNext ihAlternative =>
      obtain ⟨root, left, right⟩ := armed_node.1 armed
      rw [sweep, if_pos root, map, ← ihNext left, ← ihAlternative right]

theorem chart_sweep {α : Type} {view : Node π → α} (keeps : ∀ n, view (change n) = view n)
    (c : Condition π) : (c.sweep change).1.chart view = c.chart view := by
  induction c with
  | absent => rfl
  | node head next alternative ihNext ihAlternative =>
      rw [sweep]
      split
      · simp only [chart, keeps, ihNext, ihAlternative]
      · rfl

/-- A sweep says that a result changed exactly if one did. -/
theorem sweep_changed (change : Node π → Node π) (c : Condition π) :
    (c.sweep change).2 = true ↔ (c.sweep change).1.results ≠ c.results := by
  induction c with
  | absent => simp [sweep]
  | node head next alternative ihNext ihAlternative =>
      rw [sweep]
      split
      · unfold results at ihNext ihAlternative ⊢
        simp only [chart, ne_eq, BinaryTree.node.injEq, Bool.or_eq_true, bne_iff_ne, ihNext,
          ihAlternative, Classical.not_and_iff_not_or_not, or_assoc]
      · simp only [Bool.false_eq_true, ne_eq, not_true_eq_false]

end

variable [CustomTrigger π]

/-! ### Events as maps -/

theorem tick_eq_sweep (delta : Float32) (r : Readings) (c : Condition π) :
    c.tick delta r = c.sweep (Node.elapse delta r) := by
  induction c with
  | absent => rfl
  | node head next alternative ihNext ihAlternative =>
      rw [tick, sweep, ihNext, ihAlternative]
      rfl

theorem observe_eq_sweep (stat : StatName) (r : Readings) (c : Condition π) :
    c.observe stat r = c.sweep (Node.notice stat r) := by
  induction c with
  | absent => rfl
  | node head next alternative ihNext ihAlternative =>
      rw [Condition.observe, sweep, ihNext, ihAlternative]
      rfl

theorem restart_eq_map (r : Readings) (c : Condition π) : c.restart r = c.map (Node.restart · r) := by
  induction c with
  | absent => rfl
  | node head next alternative ihNext ihAlternative =>
      rw [restart, map, ihNext, ihAlternative]

theorem arm_eq_map {c : Condition π} (unarmed : c.Unarmed) (r : Readings) :
    c.arm r = c.map (Node.start r) := by
  induction c with
  | absent => rfl
  | node head next alternative ihNext ihAlternative =>
      obtain ⟨root, left, right⟩ := unarmed_node.1 unarmed
      rw [arm, root, if_neg (by decide), map, ihNext left, ihAlternative right]
      rfl

theorem frame_arm (r : Readings) (c : Condition π) : (c.arm r).frame = c.frame := by
  induction c with
  | absent => rfl
  | node head next alternative ihNext ihAlternative =>
      rw [arm]
      split
      · rfl
      · unfold frame at ihNext ihAlternative ⊢
        rw [chart, chart, ihNext, ihAlternative]
        rfl

theorem frame_review (r : Readings) (c : Condition π) : (c.review r).1.frame = c.frame := by
  cases c with
  | absent => rfl
  | node head next alternative =>
      rw [review]
      split
      · rfl
      · rfl

/-! ### Exact trees -/

variable {r r' : Readings} {c : Condition π}

theorem Exact.armed (exact : c.Exact r) : c.Armed := fun n member => (exact n member).1

theorem Exact.map {change : Node π → Node π} (exact : c.Exact r)
    (keeps : ∀ n ∈ c.nodes, n.armed = true → n.met = n.outcome r →
      (change n).armed = true ∧ (change n).met = (change n).outcome r') :
    (c.map change).Exact r' := by
  intro n member
  rw [nodes_map] at member
  obtain ⟨before, present, rfl⟩ := List.mem_map.1 member
  obtain ⟨armed, met⟩ := exact before present
  exact keeps before present armed met

theorem Exact.tick (exact : c.Exact r) (delta : Float32) : (c.tick delta r).1.Exact r := by
  rw [tick_eq_sweep, sweep_of_armed exact.armed]
  refine exact.map fun n _ armed met => ?_
  unfold Node.elapse
  split
  · exact ⟨armed, rfl⟩
  · exact ⟨armed, met⟩

theorem Exact.restart (exact : c.Exact r) : (c.restart r).Exact r := by
  rw [restart_eq_map]
  refine exact.map fun n _ armed _ => ?_
  unfold Node.restart
  dsimp only
  rw [if_pos armed]
  exact ⟨armed, rfl⟩

/-- The triggers of a tree that a game adds depend on no stat but the one they watch. -/
def Local (c : Condition π) : Prop :=
  ∀ n ∈ c.nodes, ∀ p, n.trigger = .custom p → n.trigger.Local

theorem Local.trigger (own : c.Local) {n : Node π} (member : n ∈ c.nodes) : n.trigger.Local :=
  Trigger.local_of_custom (own n member)

theorem Local.arm (own : c.Local) (unarmed : c.Unarmed) (r : Readings) : (c.arm r).Local := by
  intro n member p custom
  rw [arm_eq_map unarmed, nodes_map] at member
  obtain ⟨before, present, rfl⟩ := List.mem_map.1 member
  exact own before present p custom

/-- A look at the only stat that changed makes a tree exact again. -/
theorem Exact.follow (exact : c.Exact r) (own : c.Local) {stat : StatName}
    (agree : ∀ other, other ≠ stat → r.Agree r' other) : (c.observe stat r').1.Exact r' := by
  rw [observe_eq_sweep, sweep_of_armed exact.armed]
  refine exact.map fun n member armed met => ?_
  unfold Node.notice
  split
  · exact ⟨armed, rfl⟩
  · rename_i elsewhere
    have same : n.trigger.isMet r = n.trigger.isMet r' :=
      own.trigger member r r' fun other watched => agree other fun equal =>
        elsewhere (equal ▸ watched)
    refine ⟨armed, ?_⟩
    rw [met, Node.outcome, Node.outcome, same]

/-- Starting makes a tree exact, no event but a silent change of a stat leaves it otherwise, the
two events that look for changed results reach every node and report every change, and nothing
changes the form of a tree. -/
theorem events_keep_exact (own : c.Local) (r : Readings) :
    (c.Unarmed → (c.arm r).Exact r) ∧
    (c.Exact r →
      (∀ delta, (c.tick delta r).1.Exact r) ∧
      (c.restart r).Exact r ∧
      (∀ stat r', (∀ other, other ≠ stat → r.Agree r' other) → (c.observe stat r').1.Exact r') ∧
      ∀ sourced, (c.pristine.arm r).holds sourced = c.holds sourced) ∧
    (∀ delta, (c.tick delta r).2 = true ↔ (c.tick delta r).1.results ≠ c.results) ∧
    (∀ stat, (c.observe stat r).2 = true ↔ (c.observe stat r).1.results ≠ c.results) ∧
    (∀ delta, c.tick delta r = c.sweep (Node.elapse delta r)) ∧
    (∀ stat, c.observe stat r = c.sweep (Node.notice stat r)) ∧
    (c.Armed → ∀ change, (c.sweep change).1 = c.map change) ∧
    c.restart r = c.map (Node.restart · r) ∧
    (∀ delta, (c.tick delta r).1.frame = c.frame) ∧
    (∀ stat, (c.observe stat r).1.frame = c.frame) ∧
    (c.restart r).frame = c.frame ∧ (c.arm r).frame = c.frame ∧
    (c.review r).1.frame = c.frame ∧ c.disarm.frame = c.frame ∧ c.pristine.frame = c.frame := by
  refine ⟨fun unarmed => exact_arm unarmed r, fun exact => ⟨exact.tick, exact.restart,
    fun stat r' agree => exact.follow own agree, fun sourced => ?_⟩, fun delta => ?_,
    fun stat => ?_, (tick_eq_sweep · r c), (observe_eq_sweep · r c),
    fun armed change => sweep_of_armed armed, restart_eq_map r c, fun delta => ?_, fun stat => ?_,
    ?_, frame_arm r c, frame_review r c, frame_disarm c, ?_⟩
  · rw [exact.arm_pristine]
  · rw [tick_eq_sweep]
    exact sweep_changed _ c
  · rw [observe_eq_sweep]
    exact sweep_changed _ c
  · rw [tick_eq_sweep]
    exact chart_sweep (Node.flags_elapse delta r) c
  · rw [observe_eq_sweep]
    exact chart_sweep (Node.flags_notice stat r) c
  · rw [restart_eq_map]
    exact chart_map (Node.flags_restart r) c
  · have keeps (n : Node π) : n.pristine.flags = n.flags := rfl
    rw [pristine_eq_map]
    exact chart_map keeps c

/-- Passes while the time lasts if there is mana enough, and later if mana is missing. -/
def shield : Condition Scenario.ExtraTrigger :=
  .node ⟨.countdown ⟨2, 1⟩, true, true, false, false, false⟩
    (.ofTrigger (.threshold ⟨"mana", .greaterEquals, 5, false⟩))
    (.ofTrigger (.custom (.below "mana")))

def pool (mana : Float32) : Readings := ⟨fun stat => if stat = "mana" then mana else 0, fun _ => 10⟩

theorem shield_local : shield.Local := by
  intro n member p custom
  simp only [shield, ofTrigger, Node.ofTrigger, nodes, List.append_nil, List.cons_append,
    List.nil_append, List.mem_cons, List.not_mem_nil, or_false] at member
  rcases member with rfl | rfl | rfl
  · cases custom
  · cases custom
  · intro r r' agree
    obtain ⟨current, computed⟩ := agree "mana" rfl
    change decide (r.current "mana" < r.computed "mana") =
      decide (r'.current "mana" < r'.computed "mana")
    rw [current, computed]

theorem shield_events_exact : shield.Unarmed ∧ (shield.arm (pool 3)).Exact (pool 3) ∧
    ((shield.arm (pool 3)).observe "mana" (pool 7)).1.Exact (pool 7) ∧
    ((shield.arm (pool 3)).tick 1 (pool 3)).1.results ≠ (shield.arm (pool 3)).results ∧
    ((shield.arm (pool 3)).tick 1 (pool 3)).1.frame = shield.frame := by
  have unarmed : shield.Unarmed := by decide
  obtain ⟨arms, -, -, -, -, -, -, -, -, -, -, framed, -⟩ := events_keep_exact shield_local (pool 3)
  have exact := arms unarmed
  obtain ⟨-, keeps, ticks, -, -, -, -, -, frames, -⟩ := events_keep_exact (shield_local.arm unarmed (pool 3)) (pool 3)
  obtain ⟨-, -, follows, -⟩ := keeps exact
  refine ⟨unarmed, exact, follows "mana" (pool 7) fun other elsewhere => ?_, (ticks 1).1 ?_, ?_⟩
  · unfold Readings.Agree pool
    simp only [if_neg elsewhere, and_self]
  · decide +kernel
  · rw [frames 1, framed]

end Condition

end StatusEffects
