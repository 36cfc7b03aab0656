import StatusEffects.Modifier.Basic

/-!
The calculated value of a stat: its modifiers folded into its base from left to right.
-/

set_option autoImplicit false

namespace StatusEffects

structure Selection where
  ignoreInactive : Bool
  ignoreHidden : Bool
deriving DecidableEq, Repr

namespace Selection

def standard : Selection := ⟨true, false⟩

variable {π : Type}

def skips (selection : Selection) (m : Modifier π) : Bool :=
  (selection.ignoreInactive && !m.active) || (selection.ignoreHidden && m.hidden)

end Selection

namespace OperatorTable

variable {π : Type}

/-- Folds modifiers into a result. Adjacent percentages are summed up in `percent`, and the last one
of a run applies the sum. -/
def foldInto (table : OperatorTable) : (result percent : Float32) → List (Modifier π) → Float32
  | result, _, [] => result
  | result, percent, m :: rest =>
    if m.op = .percentAdd then
      let percent := table.apply .percentAdd percent m.value
      if rest.head?.any fun next => next.op = .percentAdd then table.foldInto result percent rest
      else table.foldInto (result * (1 + percent)) 0 rest
    else table.foldInto (table.apply m.op result m.value) percent rest

/-- The modifiers that a calculation uses: those before the first one of another stat, without the
ones left out. -/
def selected (selection : Selection) (modifiers : List (Modifier π)) : List (Modifier π) :=
  match modifiers with
  | [] => []
  | first :: _ =>
    (modifiers.takeWhile fun m => m.stat = first.stat).filter fun m => !selection.skips m

def calculate (table : OperatorTable) (base : Float32) (modifiers : List (Modifier π))
    (selection : Selection) : Float32 :=
  table.foldInto base 0 (selected selection modifiers)

end OperatorTable

end StatusEffects
