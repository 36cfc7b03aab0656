import StatusEffects.Engine.Effects
import StatusEffects.Proofs.Tree

/-!
What condition trees depend on: the passage of time and changes of stats.

Events change the progress of a tree and never leave none in its place. Whether they also leave
alone what the tree waits for is up to the triggers that a game adds: nothing keeps a trigger from
looking at another stat after a tick. So that is a law for itself, for time and for stats apart.
-/

set_option autoImplicit false

namespace StatusEffects

variable {π : Type} [CustomTrigger π]

inductive Interest where
  | time
  | stat (name : StatName)

/-- Time and restarts leave alone whether time passes for the triggers of a game. -/
structure FixedTiming (π : Type) [CustomTrigger π] : Prop where
  tick : ∀ (p : π) (delta : Float32),
    CustomTrigger.usesTimer (CustomTrigger.tick p delta) = CustomTrigger.usesTimer p
  restart : ∀ p : π, CustomTrigger.usesTimer (CustomTrigger.restart p) = CustomTrigger.usesTimer p

/-- Time and restarts leave alone what the triggers of a game watch. -/
structure FixedWatch (π : Type) [CustomTrigger π] : Prop where
  tick : ∀ (p : π) (delta : Float32),
    CustomTrigger.watched (CustomTrigger.tick p delta) = CustomTrigger.watched p
  restart : ∀ p : π, CustomTrigger.watched (CustomTrigger.restart p) = CustomTrigger.watched p

/-- No trigger of a game begins or ceases to wait for it while it is in use. -/
def Interest.Fixed (π : Type) [CustomTrigger π] : Interest → Prop
  | .time => FixedTiming π
  | .stat _ => FixedWatch π

/-- A trigger of a game that looks at health for a while, and at mana from then on. It breaks both
laws. -/
inductive Lookout where
  | early
  | late
deriving DecidableEq, Repr

instance : CustomTrigger Lookout where
  tag _ := "lookout"
  isMet
    | .early, readings => 50 ≤ readings.current "health"
    | .late, readings => 50 ≤ readings.current "mana"
  usesTimer
    | .early => true
    | .late => false
  watched
    | .early => some "health"
    | .late => some "mana"
  tick _ _ := .late
  restart _ := .early
  params _ := ∅

theorem Lookout.watchedOnly : WatchedOnly Lookout := by
  intro p r r' agree
  cases p with
  | early =>
      change decide (50 ≤ r.current "health") = decide (50 ≤ r'.current "health")
      rw [(agree "health" rfl).1]
  | late =>
      change decide (50 ≤ r.current "mana") = decide (50 ≤ r'.current "mana")
      rw [(agree "mana" rfl).1]

def scout : Modifier Lookout :=
  { (Modifier.ofParts "attack" .add 5 : Modifier Lookout) with
    duration := .ofTrigger (.custom .early) }

def Interests.Has (interests : Interests) : Interest → Prop
  | .time => interests.timer = true
  | .stat name => interests.stats.contains name = true

def Trigger.Wants (t : Trigger π) : Interest → Prop
  | .time => t.usesTimer = true
  | .stat name => t.watched = some name

theorem Trigger.wants_tick {i : Interest} (fixed : i.Fixed π) (t : Trigger π) (delta : Float32) :
    (t.tick delta).Wants i ↔ t.Wants i := by
  cases t with
  | countdown c => exact Iff.rfl
  | threshold t => exact Iff.rfl
  | custom p =>
      cases i with
      | time => exact Iff.of_eq (congrArg (· = true) (FixedTiming.tick fixed p delta))
      | stat name => exact Iff.of_eq (congrArg (· = some name) (FixedWatch.tick fixed p delta))

theorem Trigger.wants_restart {i : Interest} (fixed : i.Fixed π) (t : Trigger π) :
    t.restart.Wants i ↔ t.Wants i := by
  cases t with
  | countdown c => exact Iff.rfl
  | threshold t => exact Iff.rfl
  | custom p =>
      cases i with
      | time => exact Iff.of_eq (congrArg (· = true) (FixedTiming.restart fixed p))
      | stat name => exact Iff.of_eq (congrArg (· = some name) (FixedWatch.restart fixed p))

namespace Condition

/-! ### What trees wait for -/

def UsesTimer (c : Condition π) : Prop := ∃ n ∈ c.nodes, n.trigger.usesTimer = true

/-- Some node waits for it. With time this is `UsesTimer`, with a stat `Watches`. -/
def Wants (c : Condition π) (i : Interest) : Prop := ∃ n ∈ c.nodes, n.trigger.Wants i

variable {c : Condition π} {i : Interest}

@[simp] theorem not_wants_absent (i : Interest) : ¬(absent : Condition π).Wants i := by
  rintro ⟨n, member, -⟩
  exact List.not_mem_nil member

theorem wants_node {head : Node π} {next alternative : Condition π} :
    (node head next alternative).Wants i ↔
      head.trigger.Wants i ∨ next.Wants i ∨ alternative.Wants i := by
  simp only [Wants, nodes, List.mem_cons, List.mem_append, or_and_right, exists_or, exists_eq_left]

theorem wants_tick (fixed : i.Fixed π) (delta : Float32) (r : Readings) (c : Condition π) :
    (c.tick delta r).1.Wants i ↔ c.Wants i := by
  induction c with
  | absent => exact Iff.rfl
  | node head next alternative ihNext ihAlternative =>
      rw [tick]
      split
      · dsimp only
        rw [wants_node, wants_node, ihNext, ihAlternative]
        refine or_congr ?_ Iff.rfl
        split
        · exact Trigger.wants_tick fixed head.trigger delta
        · exact Iff.rfl
      · exact Iff.rfl

theorem wants_observe (stat : StatName) (r : Readings) (c : Condition π) :
    (c.observe stat r).1.Wants i ↔ c.Wants i := by
  induction c with
  | absent => exact Iff.rfl
  | node head next alternative ihNext ihAlternative =>
      rw [observe]
      split
      · dsimp only
        rw [wants_node, wants_node, ihNext, ihAlternative]
        refine or_congr ?_ Iff.rfl
        split
        · exact Iff.rfl
        · exact Iff.rfl
      · exact Iff.rfl

theorem wants_restart (fixed : i.Fixed π) (r : Readings) (c : Condition π) :
    (c.restart r).Wants i ↔ c.Wants i := by
  induction c with
  | absent => exact Iff.rfl
  | node head next alternative ihNext ihAlternative =>
      rw [restart, wants_node, wants_node, ihNext, ihAlternative]
      refine or_congr ?_ Iff.rfl
      unfold Node.restart
      dsimp only
      split
      · exact Trigger.wants_restart fixed head.trigger
      · exact Trigger.wants_restart fixed head.trigger

theorem wants_review (r : Readings) (c : Condition π) : (c.review r).1.Wants i ↔ c.Wants i := by
  cases c with
  | absent => exact Iff.rfl
  | node head next alternative =>
      rw [review]
      split
      · rw [wants_node, wants_node]
        exact Iff.rfl
      · exact Iff.rfl

theorem wants_mapCountdown (change : Countdown → Countdown) (c : Condition π) :
    (c.mapCountdown change).Wants i ↔ c.Wants i := by
  cases c with
  | absent => exact Iff.rfl
  | node head next alternative =>
      rw [mapCountdown]
      split
      · rename_i timed
        rw [wants_node, wants_node, timed]
        cases i <;> exact Iff.rfl
      · exact Iff.rfl

theorem Wants.orElse (wants : c.Wants i) (other : Condition π) : (c.orElse other).Wants i := by
  obtain ⟨n, member, waits⟩ := wants
  refine ⟨n, ?_, waits⟩
  rw [nodes_orElse]
  exact List.mem_append_left _ member

theorem gatherInterests_has (c : Condition π) (gathered : Interests) :
    (c.gatherInterests gathered).Has i ↔ c.Wants i ∨ gathered.Has i := by
  induction c generalizing gathered with
  | absent => simp [gatherInterests]
  | node head next alternative ihNext ihAlternative =>
      rw [gatherInterests, ihAlternative, ihNext, wants_node]
      cases i with
      | time =>
          simp only [Interests.Has, Trigger.Wants, Bool.or_eq_true, or_assoc, or_comm, or_left_comm]
      | stat name =>
          unfold Interests.Has Trigger.Wants
          cases head.trigger.watched with
          | none => simp [or_left_comm, or_assoc]
          | some other =>
              dsimp only
              rw [Table.contains, Table.get?_insert]
              by_cases same : name = other
              · simp [same]
              · simp [same, Ne.symm same, Table.contains, or_left_comm, or_assoc]

theorem interests_has : c.interests.Has i ↔ c.Wants i := by
  unfold interests
  rw [gatherInterests_has]
  refine ⟨fun either => either.resolve_right ?_, .inl⟩
  cases i with
  | time => exact Bool.false_ne_true
  | stat name => simp [Interests.Has, Table.contains]

/-- A tree is interested in time if one of its nodes lets time pass. -/
theorem interests_timer : c.interests.timer = true ↔ c.UsesTimer :=
  interests_has (i := .time)

/-- The stats in the interests of a tree are the ones that its nodes watch. -/
theorem interests_stats {stat : StatName} :
    c.interests.stats.contains stat = true ↔ c.Watches stat :=
  interests_has (i := .stat stat)

/-! ### Trees do not vanish -/

omit [CustomTrigger π] in
theorem node_ne_absent {head : Node π} {next alternative : Condition π} :
    node head next alternative ≠ .absent := by
  intro same
  cases same

theorem tick_ne_absent (there : c ≠ .absent) (delta : Float32) (r : Readings) :
    (c.tick delta r).1 ≠ .absent := by
  cases c with
  | absent => exact absurd rfl there
  | node head next alternative =>
      rw [tick]
      split
      · exact node_ne_absent
      · exact there

theorem observe_ne_absent (there : c ≠ .absent) (stat : StatName) (r : Readings) :
    (c.observe stat r).1 ≠ .absent := by
  cases c with
  | absent => exact absurd rfl there
  | node head next alternative =>
      rw [observe]
      split
      · exact node_ne_absent
      · exact there

theorem restart_ne_absent (there : c ≠ .absent) (r : Readings) : c.restart r ≠ .absent := by
  cases c with
  | absent => exact absurd rfl there
  | node head next alternative => exact node_ne_absent

theorem review_ne_absent (there : c ≠ .absent) (r : Readings) : (c.review r).1 ≠ .absent := by
  cases c with
  | absent => exact absurd rfl there
  | node head next alternative =>
      rw [review]
      split
      · exact node_ne_absent
      · exact there

omit [CustomTrigger π] in
theorem mapCountdown_ne_absent (there : c ≠ .absent) (change : Countdown → Countdown) :
    c.mapCountdown change ≠ .absent := by
  cases c with
  | absent => exact absurd rfl there
  | node head next alternative =>
      rw [mapCountdown]
      split
      · exact node_ne_absent
      · exact there

omit [CustomTrigger π] in
theorem orElse_ne_absent (there : c ≠ .absent) (other : Condition π) :
    c.orElse other ≠ .absent := by
  cases c with
  | absent => exact absurd rfl there
  | node head next alternative => exact node_ne_absent

/-! ### Events and merges -/

theorem wants_apply (fixed : i.Fixed π) (stimulus : Stimulus) (r : Readings) (c : Condition π) :
    (Engine.Stimulus.apply stimulus r c).1.Wants i ↔ c.Wants i := by
  cases stimulus with
  | time delta => exact wants_tick fixed delta r c
  | stat name => exact wants_observe name r c
  | restart => exact wants_restart fixed r c

theorem apply_ne_absent (there : c ≠ .absent) (stimulus : Stimulus) (r : Readings) :
    (Engine.Stimulus.apply stimulus r c).1 ≠ .absent := by
  cases stimulus with
  | time delta => exact tick_ne_absent there delta r
  | stat name => exact observe_ne_absent there name r
  | restart => exact restart_ne_absent there r

/-- A tree that another one is merged into still depends on what it depended on. -/
theorem Wants.mergedDuration (fixed : i.Fixed π) (wants : c.Wants i) (stacking : Stacking)
    (r : Readings) (incoming : Condition π) :
    (Engine.mergedDuration stacking r c incoming).Wants i := by
  cases stacking with
  | restart => exact (wants_restart fixed r c).2 wants
  | extend =>
      cases incoming with
      | absent => exact wants
      | node head next alternative =>
          rw [Engine.mergedDuration, Engine.extendDuration]
          split
          · exact (wants_review r _).2 ((wants_mapCountdown _ c).2 wants)
          · exact wants.orElse _
  | merge => exact wants
  | separate => exact wants

theorem mergedDuration_ne_absent (there : c ≠ .absent) (stacking : Stacking) (r : Readings)
    (incoming : Condition π) : Engine.mergedDuration stacking r c incoming ≠ .absent := by
  cases stacking with
  | restart => exact restart_ne_absent there r
  | extend =>
      cases incoming with
      | absent => exact there
      | node head next alternative =>
          rw [Engine.mergedDuration, Engine.extendDuration]
          split
          · exact review_ne_absent (mapCountdown_ne_absent there _) r
          · exact orElse_ne_absent there _
  | merge => exact there
  | separate => exact there

end Condition

end StatusEffects
