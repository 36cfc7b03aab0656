import StatusEffects.Name
import StatusEffects.Json.Decode

/-!
What a node of a condition waits for: the end of a countdown, a threshold on a stat, or something
that a game adds.
-/

set_option autoImplicit false

namespace StatusEffects

structure Readings where
  /-- The value a stat has now, such as the mana that is left. -/
  current : StatName → Float32
  /-- The value a stat is computed to have, such as the mana of a full pool. -/
  computed : StatName → Float32

abbrev Params := Table Json

/-! ### Countdowns -/

structure Countdown where
  duration : Float32
  timeLeft : Float32
deriving DecidableEq, Repr

namespace Countdown

def ofDuration (duration : Float32) : Countdown := ⟨duration, duration⟩

def isExpired (c : Countdown) : Bool := c.timeLeft ≤ 0

def tick (c : Countdown) (delta : Float32) : Countdown :=
  { c with timeLeft := Single.max (c.timeLeft - delta) 0 }

def restart (c : Countdown) : Countdown := { c with timeLeft := c.duration }

def extend (c : Countdown) (seconds : Float32) : Countdown :=
  { c with timeLeft := c.timeLeft + Single.max seconds 0 }

end Countdown

/-! ### Thresholds -/

inductive Comparison where
  | less
  | lessEquals
  | equals
  | notEquals
  | greaterEquals
  | greater
deriving DecidableEq, Repr

namespace Comparison

def all : List Comparison := [.less, .lessEquals, .equals, .notEquals, .greaterEquals, .greater]

def name : Comparison → String
  | .less => "less"
  | .lessEquals => "less_equals"
  | .equals => "equals"
  | .notEquals => "not_equals"
  | .greaterEquals => "greater_equals"
  | .greater => "greater"

def ofName? (name : String) : Option Comparison := all.find? fun c => c.name = name

/-- Compares two numbers. Numbers closer than `Single.epsilon` count as equal. -/
def test (c : Comparison) (a b : Float32) : Bool :=
  match c with
  | .less => a < b
  | .lessEquals => a ≤ b
  | .equals => (a - b).abs < Single.epsilon
  | .notEquals => Single.epsilon ≤ (a - b).abs
  | .greaterEquals => b ≤ a
  | .greater => b < a

end Comparison

/-- Met while the current value of a stat compares with a target as asked. A target in percent is
that share of the computed value, rounded down and at least one. -/
structure Threshold where
  stat : StatName
  compare : Comparison
  target : Float32
  isPercent : Bool
deriving DecidableEq, Repr

namespace Threshold

def effectiveTarget (t : Threshold) (readings : Readings) : Float32 :=
  if t.isPercent then Single.max (Single.floor (readings.computed t.stat * t.target / 100)) 1
  else t.target

def isMet (t : Threshold) (readings : Readings) : Bool :=
  t.compare.test (readings.current t.stat) (t.effectiveTarget readings)

end Threshold

/-! ### Triggers of a game -/

/-- Triggers that a game adds. -/
class CustomTrigger (π : Type) where
  /-- The type tag it is registered under. -/
  tag : π → String
  isMet : π → Readings → Bool
  /-- Whether time passes for it. -/
  usesTimer : π → Bool
  /-- The stat whose changes matter to it. -/
  watched : π → Option StatName
  tick : π → Float32 → π
  restart : π → π
  params : π → Params

/-- What a node of a condition waits for. -/
inductive Trigger (π : Type) where
  | countdown (c : Countdown)
  | threshold (t : Threshold)
  | custom (payload : π)
deriving DecidableEq, Repr

namespace Trigger

variable {π : Type} [CustomTrigger π]

def tag : Trigger π → String
  | .countdown _ => "timed"
  | .threshold _ => "resource"
  | .custom p => CustomTrigger.tag p

def isMet (t : Trigger π) (readings : Readings) : Bool :=
  match t with
  | .countdown c => c.isExpired
  | .threshold t => t.isMet readings
  | .custom p => CustomTrigger.isMet p readings

def usesTimer : Trigger π → Bool
  | .countdown _ => true
  | .threshold _ => false
  | .custom p => CustomTrigger.usesTimer p

def watched : Trigger π → Option StatName
  | .countdown _ => none
  | .threshold t => some t.stat
  | .custom p => CustomTrigger.watched p

def tick (t : Trigger π) (delta : Float32) : Trigger π :=
  match t with
  | .countdown c => .countdown (c.tick delta)
  | .threshold t => .threshold t
  | .custom p => .custom (CustomTrigger.tick p delta)

def restart : Trigger π → Trigger π
  | .countdown c => .countdown c.restart
  | .threshold t => .threshold t
  | .custom p => .custom (CustomTrigger.restart p)

def params : Trigger π → Params
  | .countdown c => Table.ofList
      [("duration", .ofFloat (Single.widen c.duration)),
        ("time_left", .ofFloat (Single.widen c.timeLeft))]
  | .threshold t => Table.ofList
      [("stat", .str t.stat), ("compare", .str t.compare.name),
        ("target", .ofFloat (Single.widen t.target)), ("is_percent", .bool t.isPercent)]
  | .custom p => CustomTrigger.params p

def countdown? : Trigger π → Option Countdown
  | .countdown c => some c
  | _ => none

end Trigger

end StatusEffects
