import StatusEffects.Json.Decode

/-!
The stored values of a stat.
-/

set_option autoImplicit false

namespace StatusEffects

open Json (Source Decoded)

/-- What is stored of a stat. Modifiers are folded into the base; the current value is what is left
of a supply such as health. -/
structure StatValue where
  base : Float32
  current : Float32
deriving DecidableEq, Repr

namespace StatValue

def ofBase (base : Float32) : StatValue := ⟨base, base⟩

def json (v : StatValue) : Json :=
  .object [("base_value", .ofFloat (Single.widen v.base)),
    ("current_value", .ofFloat (Single.widen v.current))]

def ofSource : Source → Decoded StatValue
  | .obj members ending => do
    let (base, current) ← Source.visit (fun (base, current) name s => match name with
        | "base_value" => do pure (← Source.once name base Source.single s, current)
        | "current_value" => do pure (base, ← Source.once name current Source.single s)
        | _ => do s.skip; pure (base, current))
      (none, none) members ending
    pure ⟨← Source.required "base_value" base, ← Source.required "current_value" current⟩
  | .arr items ending =>
    Source.InOrder.run (do
      let base ← Source.InOrder.next Source.single
      let current ← Source.InOrder.next Source.single
      pure ⟨base, current⟩) items ending
  | s => s.mismatch

end StatValue

end StatusEffects
