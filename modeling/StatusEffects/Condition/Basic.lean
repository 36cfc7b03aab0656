import StatusEffects.Condition.Trigger

/-!
Condition trees.

A node that passes hands over to its `and` branch, a node that fails to its `or` branch, so a tree
is read like a chain of `if … else if …`. Each node keeps the result of its own trigger from the
moment it is armed; only the events it depends on make it look again. A tree can be absent: as a
duration that means for ever, as an `and` branch it passes, as an `or` branch it fails.
-/

set_option autoImplicit false

namespace StatusEffects

structure Node (π : Type) where
  trigger : Trigger π
  /-- The node passes when its trigger is not met. -/
  negated : Bool
  /-- The tree restarts after the custom effect that it sets off. -/
  restartsOnMet : Bool
  /-- The node fails for what has a source. -/
  ignoresSourced : Bool
  /-- The result of the trigger, inverted if negated, when it was last looked at. -/
  met : Bool
  /-- Whether the node reacts to events. -/
  armed : Bool
deriving DecidableEq, Repr

inductive Condition (π : Type) where
  | absent
  | node (head : Node π) (next alternative : Condition π)
deriving DecidableEq, Repr

structure Interests where
  timer : Bool
  /-- The watched stats in increasing order, each once. -/
  stats : Table Unit

namespace Node

variable {π : Type}

def ofTrigger (trigger : Trigger π) : Node π := ⟨trigger, false, false, false, false, false⟩

def passes (n : Node π) (sourced : Bool) : Bool := n.met && !(n.ignoresSourced && sourced)

def pristine (n : Node π) : Node π := { n with met := false, armed := false }

variable [CustomTrigger π]

def outcome (n : Node π) (readings : Readings) : Bool := n.trigger.isMet readings ^^ n.negated

def review (n : Node π) (readings : Readings) : Node π := { n with met := n.outcome readings }

def tick (n : Node π) (delta : Float32) : Node π := { n with trigger := n.trigger.tick delta }

def restart (n : Node π) (readings : Readings) : Node π :=
  let fresh := { n with trigger := n.trigger.restart }
  if fresh.armed then fresh.review readings else fresh

end Node

namespace Condition

variable {π : Type}

def ofTrigger (trigger : Trigger π) : Condition π := .node (.ofTrigger trigger) .absent .absent

def timed (duration : Float32) : Condition π :=
  ofTrigger (.countdown (.ofDuration duration))

instance : Inhabited (Condition π) := ⟨.absent⟩

def isAbsent : Condition π → Bool
  | .absent => true
  | .node .. => false

def head? : Condition π → Option (Node π)
  | .absent => none
  | .node head _ _ => some head

/-- What the tree comes to; an absent tree comes to `ifAbsent`. -/
def verdict (sourced : Bool) : (ifAbsent : Bool) → Condition π → Bool
  | ifAbsent, .absent => ifAbsent
  | _, .node head next alternative =>
    if head.passes sourced then verdict sourced true next else verdict sourced false alternative

def holds (c : Condition π) (sourced : Bool) : Bool := c.verdict sourced false

def pristine : Condition π → Condition π
  | .absent => .absent
  | .node head next alternative => .node head.pristine next.pristine alternative.pristine

def disarm : Condition π → Condition π
  | .absent => .absent
  | .node head next alternative =>
    if head.armed then .node { head with armed := false } next.disarm alternative.disarm
    else .node head next alternative

/-- Hangs another tree to the end of the chain of `or` branches. -/
def orElse : Condition π → Condition π → Condition π
  | .absent, other => other
  | .node head next alternative, other => .node head next (alternative.orElse other)

def countdown? : Condition π → Option Countdown
  | .absent => none
  | .node head _ _ =>
    match head.trigger with
    | .countdown c => some c
    | _ => none

def mapCountdown (change : Countdown → Countdown) : Condition π → Condition π
  | .absent => .absent
  | .node head next alternative =>
    match head.trigger with
    | .countdown c => .node { head with trigger := .countdown (change c) } next alternative
    | _ => .node head next alternative

variable [CustomTrigger π]

/-- Starts to react to events and looks at every trigger. An armed tree stays as it is. -/
def arm (readings : Readings) : Condition π → Condition π
  | .absent => .absent
  | .node head next alternative =>
    if head.armed then .node head next alternative
    else
      .node { head.review readings with armed := true } (next.arm readings)
        (alternative.arm readings)

def review (readings : Readings) : Condition π → Condition π × Bool
  | .absent => (.absent, false)
  | .node head next alternative =>
    if head.armed then
      (.node (head.review readings) next alternative, (head.review readings).met != head.met)
    else (.node head next alternative, false)

def tick (delta : Float32) (readings : Readings) : Condition π → Condition π × Bool
  | .absent => (.absent, false)
  | .node head next alternative =>
    if head.armed then
      let head' := if head.trigger.usesTimer then (head.tick delta).review readings else head
      let (next', nextChanged) := next.tick delta readings
      let (alternative', alternativeChanged) := alternative.tick delta readings
      (.node head' next' alternative',
        (head'.met != head.met) || nextChanged || alternativeChanged)
    else (.node head next alternative, false)

/-- Looks again at every node that watches a stat; says whether any result changed. -/
def observe (stat : StatName) (readings : Readings) : Condition π → Condition π × Bool
  | .absent => (.absent, false)
  | .node head next alternative =>
    if head.armed then
      let head' := if head.trigger.watched = some stat then head.review readings else head
      let (next', nextChanged) := next.observe stat readings
      let (alternative', alternativeChanged) := alternative.observe stat readings
      (.node head' next' alternative',
        (head'.met != head.met) || nextChanged || alternativeChanged)
    else (.node head next alternative, false)

def restart (readings : Readings) : Condition π → Condition π
  | .absent => .absent
  | .node head next alternative =>
    .node (head.restart readings) (next.restart readings) (alternative.restart readings)

def gatherInterests : Condition π → Interests → Interests
  | .absent, gathered => gathered
  | .node head next alternative, gathered =>
    let stats := match head.trigger.watched with
      | some stat => gathered.stats.insert stat ()
      | none => gathered.stats
    alternative.gatherInterests
      (next.gatherInterests ⟨gathered.timer || head.trigger.usesTimer, stats⟩)

def interests (c : Condition π) : Interests := c.gatherInterests ⟨false, ∅⟩

end Condition

end StatusEffects
