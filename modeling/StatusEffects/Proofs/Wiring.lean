import StatusEffects.Proofs.Tidy
import StatusEffects.Proofs.Tree
import StatusEffects.Rulebook

/-!
The condition trees of an entity and their owners.

A modifier or stack bears its duration, which decides whether it is active, and a live effect bears
the conditions of its custom effects. Where no stat has a rule of its own, what a tree reads of a
stat depends only on the stored value of the stat and on its modifiers.
-/

set_option autoImplicit false

namespace StatusEffects

variable {π : Type}

/-! ### What trees read -/

def Modifier.gist (m : Modifier π) : Modifier π :=
  { m with duration := .absent, id := 0, source := none, attached := false }

theorem OperatorTable.foldInto_gist (operators : OperatorTable) (result percent : Float32)
    (modifiers : List (Modifier π)) :
    operators.foldInto result percent (modifiers.map Modifier.gist) =
      operators.foldInto result percent modifiers := by
  induction modifiers generalizing result percent with
  | nil => rfl
  | cons m rest ih =>
      have next : (rest.map Modifier.gist).head?.any (fun m => m.op = .percentAdd) =
          rest.head?.any fun m => m.op = .percentAdd := by
        cases rest with
        | nil => rfl
        | cons _ _ => rfl
      rw [List.map_cons, foldInto, foldInto, next]
      simp only [ih]
      rfl

theorem OperatorTable.calculate_gist (operators : OperatorTable) (base : Float32)
    {first second : List (Modifier π)} (same : first.map Modifier.gist = second.map Modifier.gist)
    (selection : Selection) :
    operators.calculate base first selection = operators.calculate base second selection := by
  have selects (modifiers : List (Modifier π)) :
      selected selection (modifiers.map Modifier.gist) =
        (selected selection modifiers).map Modifier.gist := by
    cases modifiers with
    | nil => rfl
    | cons m rest =>
        unfold selected
        rw [List.map_cons]
        dsimp only
        rw [← List.map_cons, List.takeWhile_map, List.filter_map]
        rfl
  unfold calculate
  rw [← foldInto_gist, ← selects, same, selects, foldInto_gist]

/-- Nothing that counts for the value of a stat is different. -/
def Entity.SameAt (e e' : Entity π) (stat : StatName) : Prop :=
  e'.values.get? stat = e.values.get? stat ∧
    (e'.modifiers.get stat).map Modifier.gist = (e.modifiers.get stat).map Modifier.gist

theorem Entity.SameAt.refl (e : Entity π) (stat : StatName) : e.SameAt e stat := ⟨rfl, rfl⟩

theorem Entity.SameAt.trans {e₁ e₂ e₃ : Entity π} {stat : StatName} (first : e₁.SameAt e₂ stat)
    (second : e₂.SameAt e₃ stat) : e₁.SameAt e₃ stat :=
  ⟨second.1.trans first.1, second.2.trans first.2⟩

theorem Rulebook.calculate_of_plain {rules : Rulebook π} (plain : rules.statRules = ∅)
    (e : Entity π) (stat : StatName) (selection : Selection) : rules.calculate e stat selection =
      rules.operators.calculate (rules.stat e stat).base (e.modifiers.get stat) selection := by
  rw [calculate, calculateWithin, plain, Table.get?_empty]
  rfl

theorem Rulebook.calculate_of_sameAt {rules : Rulebook π} (plain : rules.statRules = ∅)
    {e e' : Entity π} {stat : StatName} (same : e.SameAt e' stat) :
    rules.stat e stat = rules.stat e' stat ∧
      ∀ selection, rules.calculate e stat selection = rules.calculate e' stat selection := by
  have stored : rules.stat e stat = rules.stat e' stat := by
    unfold Rulebook.stat
    rw [same.1]
  refine ⟨stored, fun selection => ?_⟩
  rw [calculate_of_plain plain, calculate_of_plain plain, stored]
  exact rules.operators.calculate_gist _ same.2.symm _

theorem Rulebook.readings_agree {rules : Rulebook π} (plain : rules.statRules = ∅)
    {e e' : Entity π} {stat : StatName} (same : e.SameAt e' stat) :
    (rules.readings e).Agree (rules.readings e') stat := by
  obtain ⟨stored, calculated⟩ := rules.calculate_of_sameAt plain same
  exact ⟨congrArg StatValue.current stored, calculated .standard⟩

/-! ### What bears trees -/

def Owner.handle : Owner → Handle
  | .modifier _ id | .stack _ id => id
  | .custom _ serial _ => serial

/-- Whether an entry is active, and whether an owner decides about it. -/
structure Gate where
  active : Bool
  sourced : Bool

/-- The duration decides whether the entry is active, and without a source it has to be. -/
structure Gate.Fits (gate : Gate) (c : Condition π) : Prop where
  active : gate.active = !c.holds gate.sourced
  lasts : gate.sourced = false → gate.active = true

namespace Entity

/-- An owner has a condition tree, which for a modifier or stack goes with its activity. -/
inductive Bears (e : Entity π) : Owner → Condition π → Option Gate → Prop where
  | modifier {stat : StatName} {m : Modifier π} (member : m ∈ e.modifiers.get stat) :
      Bears e (.modifier stat m.id) m.duration (some ⟨m.active, m.isSourced⟩)
  | stack {effect : EffectName} {live : LiveEffect π} {s : Stack π}
      (found : e.effects.get? effect = some live) (member : s ∈ live.held) :
      Bears e (.stack effect s.id) s.duration (some ⟨s.active, s.isSourced⟩)
  | custom {effect : EffectName} {live : LiveEffect π} {index : Nat} {c : Condition π}
      (found : e.effects.get? effect = some live) (there : live.conditions[index]? = some c) :
      Bears e (.custom effect live.serial index) c none

variable {e : Entity π}

theorem Tidy.condition_of_bears (tidy : e.Tidy) {owner : Owner} {c : Condition π}
    {gate : Option Gate} (bears : e.Bears owner c gate) : e.condition owner = c := by
  cases bears with
  | @modifier stat m member =>
      rw [Entity.condition, tidy.find?_of_mem member, Option.map_some, Option.getD_some]
  | @stack effect live s found member =>
      have there := (tidy.effects effect live found).stack?_of_held member
      rw [Entity.condition, Entity.stack?, found, Option.bind_some, there, Option.map_some,
        Option.getD_some]
  | @custom effect live index c found there =>
      rw [Entity.condition, found]
      dsimp only
      rw [if_pos rfl, LiveEffect.condition, List.getD_eq_getElem?_getD, there, Option.getD_some]

theorem bears_of_condition {owner : Owner} {head : Node π} {next alternative : Condition π}
    (there : e.condition owner = .node head next alternative) :
    ∃ gate, e.Bears owner (.node head next alternative) gate := by
  cases owner with
  | modifier stat id =>
      rw [Entity.condition, ModifierLists.find?] at there
      cases found : (e.modifiers.get stat).find? fun m => m.id = id with
      | none =>
          rw [found] at there
          cases there
      | some m =>
          rw [found, Option.map_some, Option.getD_some] at there
          rw [← there, ← of_decide_eq_true (List.find?_some found :)]
          exact ⟨_, .modifier (List.mem_of_find?_eq_some found)⟩
  | stack effect id =>
      rw [Entity.condition] at there
      cases found : e.stack? effect id with
      | none =>
          rw [found] at there
          cases there
      | some s =>
          obtain ⟨live, lives, stack⟩ := Option.bind_eq_some_iff.1 found
          rw [found, Option.map_some, Option.getD_some] at there
          rw [← there, ← LiveEffect.id_of_stack? stack]
          exact ⟨_, .stack lives (List.mem_of_find?_eq_some stack)⟩
  | custom effect serial index =>
      rw [Entity.condition] at there
      cases found : e.effects.get? effect with
      | none =>
          rw [found] at there
          cases there
      | some live =>
          rw [found] at there
          dsimp only at there
          split at there
          · rename_i same
            rw [LiveEffect.condition, List.getD_eq_getElem?_getD] at there
            cases placed : live.conditions[index]? with
            | none =>
                rw [placed] at there
                cases there
            | some c =>
                rw [placed, Option.getD_some] at there
                rw [← there, ← same]
                exact ⟨_, .custom found placed⟩
          · cases there

theorem bears_of_present {owner : Owner} (there : e.condition owner ≠ .absent) :
    ∃ gate, e.Bears owner (e.condition owner) gate := by
  cases tree : e.condition owner with
  | absent => exact absurd tree there
  | node head next alternative => exact bears_of_condition tree

theorem condition_eq_absent {owner : Owner} (gone : ∀ c gate, ¬e.Bears owner c gate) :
    e.condition owner = .absent := by
  refine Classical.byContradiction fun there => ?_
  obtain ⟨gate, bears⟩ := bears_of_present there
  exact gone _ gate bears

end Entity

end StatusEffects
