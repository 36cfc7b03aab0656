import StatusEffects.Condition.Form

/-!
Triggers that scenarios can use beside the built-in ones.
-/

set_option autoImplicit false

namespace StatusEffects.Scenario

inductive ExtraTrigger where
  /-- Met once enough time has passed. -/
  | countUp (need elapsed : Float32)
  /-- Met while a stat is below its computed value. -/
  | below (stat : StatName)
  /-- Met while a stat has at least a value, but not told about its changes. -/
  | silent (stat : StatName) (need : Float32)
deriving DecidableEq, Repr

instance : CustomTrigger ExtraTrigger where
  tag
    | .countUp .. => "countup"
    | .below .. => "below"
    | .silent .. => "silent"
  isMet
    | .countUp need elapsed, _ => need ≤ elapsed
    | .below stat, readings => readings.current stat < readings.computed stat
    | .silent stat need, readings => need ≤ readings.current stat
  usesTimer
    | .countUp .. => true
    | _ => false
  watched
    | .below stat => some stat
    | _ => none
  tick
    | .countUp need elapsed, delta => .countUp need (elapsed + delta)
    | p, _ => p
  restart
    | .countUp need _ => .countUp need 0
    | p => p
  params
    | .countUp need _ => Table.ofList [("need", .ofFloat (Single.widen need))]
    | .below stat => Table.ofList [("stat", .str stat)]
    | .silent stat need =>
      Table.ofList [("stat", .str stat), ("need", .ofFloat (Single.widen need))]

namespace ExtraTrigger

private def number? (params : Params) (name : String) : Option Float32 :=
  ((params.get? name).bind Json.number?).map Single.narrow

private def text? (params : Params) (name : String) : Option String :=
  (params.get? name).bind Json.text?

/-- The trigger of a tag with its parameters. Every tag but two means a silent trigger. -/
def ofParams? (tag : String) (params : Params) : Option ExtraTrigger :=
  match tag with
  | "countup" => (number? params "need").map (.countUp · 0)
  | "below" => (text? params "stat").map .below
  | _ => (text? params "stat").bind fun stat => (number? params "need").map (.silent stat)

def build (tag : String) (params : Params) : Except ConfigError (Trigger ExtraTrigger) :=
  match ofParams? tag params with
  | some trigger => pure (.custom trigger)
  | none => throw (.invalidParams tag (.refused "bad host params"))

end ExtraTrigger

end StatusEffects.Scenario
