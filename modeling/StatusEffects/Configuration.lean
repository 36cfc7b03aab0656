import StatusEffects.Rulebook
import StatusEffects.Toml.Document

/-!
Configuration documents: the defaults of stats and the effects of a game, written in TOML.

A document is decoded in full before anything of it is registered. Registering goes entry by entry
and ends at the first one that is refused; the entries before it stay.
-/

set_option autoImplicit false

namespace StatusEffects

open Json (Source Decoded)

/-! ### Documents -/

def decodeDocument {α : Type} (decode : Source → Decoded α) (text : String) :
    Except ConfigError α :=
  match Toml.parse? text with
  | none => throw .undecodable
  | some document =>
    match decode document.source with
    | .ok value => pure value
    | .error _ => throw .undecodable

/-- Reads a file with these contents; there are none if the file cannot be read. -/
def readContents {α : Type} (read : String → Except ConfigError α) :
    (contents : Option String) → Except ConfigError α
  | some text => read text
  | none => throw .unreadable

/-! ### Defaults of stats -/

structure StatDefaults where
  stats : Table Float32

namespace StatDefaults

def json (d : StatDefaults) : Json :=
  .object [("stats", .obj (d.stats.mapValues fun _ v => .ofFloat (Single.widen v)).entries)]

def ofSource : Source → Decoded StatDefaults
  | .obj members ending => do
    let stats ← Source.visit (fun stats name s => match name with
        | "stats" => Source.once name stats (Source.table Source.single) s
        | _ => do s.skip; pure stats)
      none members ending
    pure ⟨stats.getD ∅⟩
  | .arr items ending =>
    Source.InOrder.run (do
      return ⟨← Source.InOrder.nextD (Source.table Source.single) ∅⟩) items ending
  | s => s.mismatch

def checked (entry : StatName × Float32) : Except ConfigError (StatName × Float32) :=
  if entry.1 = "" then throw (.invalid .emptyStatName)
  else if entry.2.isFinite then pure entry
  else throw (.invalid (.defaultNotFinite entry.1))

/-- The defaults in the order of the stats; the first one that is not valid refuses them all. -/
def entries (d : StatDefaults) : Except ConfigError (List (StatName × Float32)) :=
  d.stats.entries.mapM checked

def ofDocument (text : String) : Except ConfigError (List (StatName × Float32)) := do
  (← decodeDocument ofSource text).entries

end StatDefaults

/-! ### Effects -/

variable {π : Type}

def EffectDefinition.ofDocument (types : ConditionTypes π) (text : String) :
    Except ConfigError (List (EffectDefinition π)) := do
  (← decodeDocument EffectForm.ofDocument text).mapM (·.build types)

/-! ### Registration -/

namespace Rulebook

/-- Registers entries one by one up to the first one that is refused, with the reason for that. -/
def registerEach {α : Type} (register : Rulebook π → α → Except ConfigError (Rulebook π)) :
    Rulebook π → List α → Rulebook π × Option ConfigError
  | rules, [] => (rules, none)
  | rules, entry :: rest =>
    match register rules entry with
    | .ok rules => registerEach register rules rest
    | .error e => (rules, some e)

def registerDefaults (rules : Rulebook π) (text : String) : Rulebook π × Option ConfigError :=
  match StatDefaults.ofDocument text with
  | .error e => (rules, some e)
  | .ok entries =>
    registerEach (fun rules entry => rules.registerStat entry.1 entry.2) rules entries

def registerEffects (rules : Rulebook π) (text : String) : Rulebook π × Option ConfigError :=
  match EffectDefinition.ofDocument rules.conditionTypes text with
  | .error e => (rules, some e)
  | .ok definitions => registerEach registerEffect rules definitions

/-- Registers the defaults of stats in a document, then the effects in it unless a default was
refused. -/
def registerDocument (rules : Rulebook π) (text : String) : Rulebook π × Option ConfigError :=
  match rules.registerDefaults text with
  | (rules, some e) => (rules, some e)
  | (rules, none) => rules.registerEffects text

def registerFile (rules : Rulebook π) : Option String → Rulebook π × Option ConfigError
  | some text => rules.registerDocument text
  | none => (rules, some .unreadable)

end Rulebook

end StatusEffects
