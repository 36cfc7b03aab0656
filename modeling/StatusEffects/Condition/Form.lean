import StatusEffects.Condition.Basic
import StatusEffects.Error

/-!
The written form of condition trees and the types that build trees from it.

A form names the type of each node and holds its parameters as JSON values. `Condition.form` writes
a tree down with its progress; `ConditionTypes.build` builds a tree that is not armed.
-/

set_option autoImplicit false

namespace StatusEffects

open Json (Source Decoded DecodeError)

inductive ConditionForm where
  | absent
  | node (tag : String) (negated restartsOnMet ignoresSourced : Bool) (params : Params)
      (next alternative : ConditionForm)

namespace ConditionForm

instance : Inhabited ConditionForm := ⟨.absent⟩

def json : ConditionForm → Json
  | .absent => .null
  | .node tag negated restartsOnMet ignoresSourced params next alternative =>
    let branch (name : String) (form : ConditionForm) (value : Json) : List (String × Json) :=
      match form with
      | .absent => []
      | .node .. => [(name, value)]
    .object <|
      [("type", .str tag), ("not", .bool negated), ("reup_on_met", .bool restartsOnMet),
        ("ignore_with_source", .bool ignoresSourced)]
      ++ branch "and" next next.json ++ branch "or" alternative alternative.json
      ++ params.entries

structure Draft where
  tag : Option String
  negated : Option Bool
  restartsOnMet : Option Bool
  ignoresSourced : Option Bool
  next : Option ConditionForm
  alternative : Option ConditionForm
  params : Params

def Draft.finish (d : Draft) : Decoded ConditionForm := do
  let tag ← Source.required "type" d.tag
  pure (.node tag (d.negated.getD false) (d.restartsOnMet.getD false)
    (d.ignoresSourced.getD false) d.params (d.next.getD .absent) (d.alternative.getD .absent))

mutual

/-- Decodes a form. Members that are neither flags nor branches are parameters. -/
def ofSource : Source → Decoded ConditionForm
  | .obj members ending => do
    let draft ← ofMembers ⟨none, none, none, none, none, none, ∅⟩ members
    ending.reach
    draft.finish
  | s => s.mismatch

def ofMembers (d : Draft) : List (String × Source) → Decoded Draft
  | [] => pure d
  | (name, s) :: rest => do
    let d ← match name with
      | "type" => do pure { d with tag := ← Source.once name d.tag Source.text s }
      | "not" => do pure { d with negated := ← Source.once name d.negated Source.flag s }
      | "reup_on_met" => do
        pure { d with restartsOnMet := ← Source.once name d.restartsOnMet Source.flag s }
      | "ignore_with_source" => do
        pure { d with ignoresSourced := ← Source.once name d.ignoresSourced Source.flag s }
      | "and" =>
        match d.next, s with
        | some _, _ => throw (.duplicateField name)
        | none, .scalar .null => pure { d with next := some .absent }
        | none, s => do pure { d with next := some (← ofSource s) }
      | "or" =>
        match d.alternative, s with
        | some _, _ => throw (.duplicateField name)
        | none, .scalar .null => pure { d with alternative := some .absent }
        | none, s => do pure { d with alternative := some (← ofSource s) }
      | _ => do pure { d with params := d.params.insert name (← s.value) }
    ofMembers d rest

end

def ofOptional : Source → Decoded ConditionForm
  | .scalar .null => pure .absent
  | s => ofSource s

end ConditionForm

/-! ### Writing trees down -/

def Condition.form {π : Type} [CustomTrigger π] : Condition π → ConditionForm
  | .absent => .absent
  | .node head next alternative =>
    .node head.trigger.tag head.negated head.restartsOnMet head.ignoresSourced head.trigger.params
      next.form alternative.form

/-! ### Building trees -/

private def Comparison.named (name : String) : Decoded Comparison :=
  match Comparison.ofName? name with
  | some c => pure c
  | none => throw (.unknownVariant name)

def Comparison.ofSource (s : Source) : Decoded Comparison := s.choice Comparison.named

def Comparison.ofText (text : String) : Decoded Comparison :=
  Json.decodeChoice Comparison.named text

/-- Builds a countdown; without the time that is left it starts in full. -/
def Countdown.ofParams (params : Params) : Except ConfigError Countdown := do
  let decode : Decoded (Float32 × Option Float32) := do
    let (duration, timeLeft) ← Source.visit (fun (duration, timeLeft) name s => match name with
        | "duration" => do pure (← Source.once name duration Source.single s, timeLeft)
        | "time_left" => do
          pure (duration, ← Source.once name timeLeft (Source.optional Source.single) s)
        | _ => do s.skip; pure (duration, timeLeft))
      (none, none) (Source.ofJson.ofMembers params.entries) .counted
    pure (← Source.required "duration" duration, timeLeft.getD none)
  match decode with
  | .error e => throw (.invalidParams "timed" (.undecodable e))
  | .ok (duration, timeLeft) =>
    if duration < 0 then throw (.invalidParams "timed" .negativeDuration)
    else pure ⟨duration, timeLeft.getD duration⟩

private structure Threshold.Draft where
  stat : Option StatName
  compare : Option Comparison
  target : Option Float32
  isPercent : Option Bool

def Threshold.ofParams (params : Params) : Except ConfigError Threshold :=
  let decode : Decoded Threshold := do
    let d ← Source.visit (fun (d : Threshold.Draft) name s => match name with
        | "stat" => do pure { d with stat := ← Source.once name d.stat Source.text s }
        | "compare" => do
          pure { d with compare := ← Source.once name d.compare Comparison.ofSource s }
        | "target" => do pure { d with target := ← Source.once name d.target Source.single s }
        | "is_percent" => do
          pure { d with isPercent := ← Source.once name d.isPercent Source.flag s }
        | _ => do s.skip; pure d)
      ⟨none, none, none, none⟩ (Source.ofJson.ofMembers params.entries) .counted
    pure ⟨← Source.required "stat" d.stat, ← Source.required "compare" d.compare,
      ← Source.required "target" d.target, d.isPercent.getD false⟩
  match decode with
  | .error e => throw (.invalidParams "resource" (.undecodable e))
  | .ok t => pure t

structure ConditionTypes (π : Type) where
  builders : Table (Params → Except ConfigError (Trigger π))

namespace ConditionTypes

variable {π : Type}

def builtin : ConditionTypes π where
  builders := Table.ofList
    [("timed", fun params => .countdown <$> Countdown.ofParams params),
      ("resource", fun params => .threshold <$> Threshold.ofParams params)]

def register (types : ConditionTypes π) (tag : String)
    (builder : Params → Except ConfigError (Trigger π)) :
    Except ConfigError (ConditionTypes π) :=
  if types.builders.contains tag then throw (.duplicateConditionType tag)
  else pure ⟨types.builders.insert tag builder⟩

def contains (types : ConditionTypes π) (tag : String) : Bool := types.builders.contains tag

/-- Builds the tree of a form; of several faults the one of the root counts, then the one of the
`and` branch. -/
def build (types : ConditionTypes π) : ConditionForm → Except ConfigError (Condition π)
  | .absent => pure .absent
  | .node tag negated restartsOnMet ignoresSourced params next alternative => do
    match types.builders.get? tag with
    | none => throw (.unknownConditionType tag)
    | some builder =>
      let trigger ← builder params
      let next ← types.build next
      let alternative ← types.build alternative
      pure (.node ⟨trigger, negated, restartsOnMet, ignoresSourced, false, false⟩ next alternative)

def rebuild [CustomTrigger π] (types : ConditionTypes π) (c : Condition π) :
    Except ConfigError (Condition π) :=
  types.build c.form

end ConditionTypes

end StatusEffects
