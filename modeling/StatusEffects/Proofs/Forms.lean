import StatusEffects.Condition.Form
import StatusEffects.Effect.Stack
import StatusEffects.Modifier.Basic
import StatusEffects.Proofs.Numbers
import StatusEffects.Proofs.Tree
import StatusEffects.Scenario.Trigger

/-!
What is written down can be built again.

The written form of a condition tree keeps its configuration and its progress. A number that is not
finite is written as nothing: without a duration or a target no node can be built, and a countdown
without the time that is left starts in full.
-/

set_option autoImplicit false

namespace StatusEffects

open Json (Source)

variable {π : Type}

/-! ### Countdowns and thresholds -/

def Countdown.fault? (c : Countdown) : Option ParamsError :=
  if c.duration.isFinite then
    if c.duration < 0 then some .negativeDuration else none
  else some (.undecodable .invalidType)

/-- The countdown that is built from what is written of another. -/
def Countdown.mended (c : Countdown) : Countdown := if c.timeLeft.isFinite then c else c.restart

def Threshold.fault? (t : Threshold) : Option ParamsError :=
  if t.target.isFinite then none else some (.undecodable .invalidType)

theorem Json.Source.single_ofFloat (x : Float32) :
    (Source.ofJson (.ofFloat (Single.widen x))).single =
      if x.isFinite then .ok x else .error .invalidType := by
  unfold Json.ofFloat
  rw [Single.isFinite_widen]
  split
  · rename_i finite
    simp only [Source.ofJson, Source.single, (Single.narrow_widen finite).2]
    rfl
  · rfl

theorem Json.Source.optional_ofFloat (x : Float32) :
    Source.optional Source.single (Source.ofJson (.ofFloat (Single.widen x))) =
      .ok (if x.isFinite then some x else none) := by
  unfold Json.ofFloat
  rw [Single.isFinite_widen]
  split
  · rename_i finite
    simp only [Source.ofJson, Source.optional, Source.single, (Single.narrow_widen finite).2]
    rfl
  · rfl

section

variable [CustomTrigger π]

theorem Countdown.ofParams_params (c : Countdown) :
    Countdown.ofParams (Trigger.countdown (π := π) c).params =
      match c.fault? with
      | some fault => .error (.invalidParams "timed" fault)
      | none => .ok c.mended := by
  have entries : (Trigger.countdown (π := π) c).params.entries =
      [("duration", .ofFloat (Single.widen c.duration)),
        ("time_left", .ofFloat (Single.widen c.timeLeft))] := by
    have after : ¬"time_left" < "duration" := by decide
    simp only [Trigger.params, Table.ofList, Table.empty, Table.insert, Table.insertEntry,
      List.foldl_cons, List.foldl_nil, if_neg after, String.reduceEq, reduceIte]
  unfold Countdown.ofParams Countdown.fault?
  rw [entries]
  simp only [Source.ofJson.ofMembers, Source.visit, List.foldlM]
  simp [Source.once, Source.single_ofFloat, Source.optional_ofFloat, Source.required,
    Json.Ending.reach]
  by_cases whole : c.duration.isFinite = true
  · rw [if_pos whole, if_pos whole]
    change (if c.duration < 0 then _ else _) = _
    by_cases negative : c.duration < 0
    · rw [if_pos negative, if_pos negative]
      rfl
    · rw [if_neg negative, if_neg negative]
      unfold mended
      split
      · rfl
      · rfl
  · rw [if_neg whole, if_neg whole]
    rfl

theorem Comparison.ofSource_name (c : Comparison) :
    Comparison.ofSource (.scalar (.str c.name)) = .ok c := by
  cases c <;> rfl

theorem Threshold.ofParams_params (t : Threshold) :
    Threshold.ofParams (Trigger.threshold (π := π) t).params =
      match t.fault? with
      | some fault => .error (.invalidParams "resource" fault)
      | none => .ok t := by
  have entries : (Trigger.threshold (π := π) t).params.entries =
      [("compare", .str t.compare.name), ("is_percent", .bool t.isPercent), ("stat", .str t.stat),
        ("target", .ofFloat (Single.widen t.target))] := by
    have compareFirst : "compare" < "stat" := by decide
    have targetLast : ¬"target" < "compare" ∧ ¬"target" < "stat" := by decide
    have flagSecond : ¬"is_percent" < "compare" ∧ "is_percent" < "stat" := by decide
    simp only [Trigger.params, Table.ofList, Table.empty, Table.insert, Table.insertEntry,
      List.foldl_cons, List.foldl_nil, compareFirst, targetLast, flagSecond,
      String.reduceEq, reduceIte]
  have compare := Comparison.ofSource_name t.compare
  unfold Threshold.ofParams Threshold.fault?
  rw [entries]
  simp only [Source.ofJson.ofMembers, Source.ofJson, Source.visit, List.foldlM]
  simp [Source.once, Source.text, Source.flag, Source.required, Source.single_ofFloat,
    Json.Ending.reach, compare]
  by_cases whole : t.target.isFinite = true
  · rw [if_pos whole, if_pos whole]
    rfl
  · rw [if_neg whole, if_neg whole]
    rfl

end

/-! ### Triggers -/

namespace Trigger

/-- Why a trigger cannot be built again from what is written down. -/
def fault? : Trigger π → Option ConfigError
  | .countdown c => c.fault?.map (.invalidParams "timed")
  | .threshold t => t.fault?.map (.invalidParams "resource")
  | .custom _ => none

def mended : Trigger π → Trigger π
  | .countdown c => .countdown c.mended
  | t => t

def Builtin : Trigger π → Prop
  | .custom _ => False
  | _ => True

/-- A countdown has a finite duration that is not negative, a threshold a finite target. -/
def Sound : Trigger π → Prop
  | .countdown c => c.duration.isFinite = true ∧ ¬c.duration < 0
  | .threshold t => t.target.isFinite = true
  | .custom _ => True

instance (t : Trigger π) : Decidable t.Sound :=
  match t with
  | .countdown _ => inferInstanceAs (Decidable (_ ∧ _))
  | .threshold _ => inferInstanceAs (Decidable (_ = _))
  | .custom _ => .isTrue trivial

def Storable : Trigger π → Prop
  | .countdown c => c.duration.isFinite = true ∧ c.timeLeft.isFinite = true ∧ ¬c.duration < 0
  | .threshold t => t.target.isFinite = true
  | .custom _ => False

instance (t : Trigger π) : Decidable t.Storable :=
  match t with
  | .countdown _ => inferInstanceAs (Decidable (_ ∧ _ ∧ _))
  | .threshold _ => inferInstanceAs (Decidable (_ = _))
  | .custom _ => .isFalse id

variable {t : Trigger π}

theorem fault?_eq_none : t.fault? = none ↔ t.Sound := by
  cases t with
  | countdown c =>
      simp only [fault?, Sound, Countdown.fault?, Option.map_eq_none_iff]
      by_cases whole : c.duration.isFinite = true
      · simp [whole]
      · simp [whole]
  | threshold t => simp [fault?, Sound, Threshold.fault?]
  | custom p => simp [fault?, Sound]

theorem Storable.builtin (storable : t.Storable) : t.Builtin := by
  cases t with
  | countdown c => trivial
  | threshold t => trivial
  | custom p => exact storable

theorem Storable.sound (storable : t.Storable) : t.Sound := by
  cases t with
  | countdown c => exact ⟨storable.1, storable.2.2⟩
  | threshold t => exact storable
  | custom p => trivial

theorem Storable.mended (storable : t.Storable) : t.mended = t := by
  cases t with
  | countdown c => exact congrArg Trigger.countdown (if_pos storable.2.1)
  | threshold t => rfl
  | custom p => rfl

end Trigger

namespace ConditionTypes

/-- The types of a game: those that every game has and those that it adds. -/
inductive Registered : ConditionTypes π → Prop
  | builtin : Registered .builtin
  | register {types types' : ConditionTypes π} {tag : String}
      {builder : Params → Except ConfigError (Trigger π)} (before : Registered types)
      (added : types.register tag builder = .ok types') : Registered types'

variable {types : ConditionTypes π} (registered : types.Registered)

include registered

/-- What a game adds does not take the place of what every game has. -/
theorem Registered.get?_of_builtin {tag : String} {builder : Params → Except ConfigError (Trigger π)}
    (found : ConditionTypes.builtin.builders.get? tag = some builder) :
    types.builders.get? tag = some builder := by
  induction registered with
  | builtin => exact found
  | @register types types' other _ _ added ih =>
      unfold ConditionTypes.register at added
      split at added
      · cases added
      · rename_i free
        cases added
        rw [Table.get?_insert_of_ne _ _ ?_, ih]
        rintro rfl
        unfold Table.contains at free
        rw [ih] at free
        exact free rfl

variable [CustomTrigger π]

/-- The types that every game has build a trigger again. -/
theorem Registered.builds {t : Trigger π} (known : t.Builtin) :
    ∃ builder, types.builders.get? t.tag = some builder ∧
      builder t.params =
        match t.fault? with
        | some e => .error e
        | none => .ok t.mended := by
  cases t with
  | countdown c =>
      refine ⟨fun params => .countdown <$> Countdown.ofParams params,
        registered.get?_of_builtin ?_, ?_⟩
      · change (((∅ : Table _).insert "timed" _).insert "resource" _).get? "timed" = _
        rw [Table.get?_insert_of_ne _ _ (by decide), Table.get?_insert_self]
      · dsimp only
        rw [Countdown.ofParams_params]
        simp only [Trigger.fault?]
        cases c.fault? with
        | none => rfl
        | some fault => rfl
  | threshold t =>
      refine ⟨fun params => .threshold <$> Threshold.ofParams params,
        registered.get?_of_builtin ?_, ?_⟩
      · change (((∅ : Table _).insert "timed" _).insert "resource" _).get? "resource" = _
        rw [Table.get?_insert_self]
      · dsimp only
        rw [Threshold.ofParams_params]
        simp only [Trigger.fault?]
        cases t.fault? with
        | none => rfl
        | some fault => rfl
  | custom p => exact known.elim

end ConditionTypes

/-! ### Trees -/

def Node.mended (n : Node π) : Node π := { n with trigger := n.trigger.mended }

namespace Condition

def Builtin (c : Condition π) : Prop := ∀ n ∈ c.nodes, n.trigger.Builtin

/-- Every trigger of the tree can be built again as it is. -/
def Storable (c : Condition π) : Prop := ∀ n ∈ c.nodes, n.trigger.Storable

instance (c : Condition π) : Decidable c.Storable :=
  inferInstanceAs (Decidable (∀ n ∈ c.nodes, n.trigger.Storable))

def fault? (c : Condition π) : Option ConfigError := c.nodes.findSome? fun n => n.trigger.fault?

variable {c : Condition π}

theorem builtin_node {head : Node π} {next alternative : Condition π} :
    (node head next alternative).Builtin ↔
      head.trigger.Builtin ∧ next.Builtin ∧ alternative.Builtin := by
  simp only [Builtin, nodes, List.mem_cons, List.mem_append, or_imp, forall_and, forall_eq]

theorem fault?_eq_none : c.fault? = none ↔ ∀ n ∈ c.nodes, n.trigger.Sound := by
  simp only [fault?, List.findSome?_eq_none_iff, Trigger.fault?_eq_none]

theorem fault?_eq_some {e : ConfigError} : c.fault? = some e ↔ ∃ before n after,
    c.nodes = before ++ n :: after ∧ n.trigger.fault? = some e ∧
      ∀ earlier ∈ before, earlier.trigger.Sound := by
  simp only [fault?, List.findSome?_eq_some_iff, Trigger.fault?_eq_none]

theorem Storable.map_mended (storable : c.Storable) : c.pristine.map Node.mended = c.pristine := by
  have same : ∀ n ∈ c.pristine.nodes, n.mended = n := by
    intro n member
    rw [nodes_pristine] at member
    obtain ⟨before, present, rfl⟩ := List.mem_map.1 member
    exact congrArg (fun t => { before.pristine with trigger := t }) (storable before present).mended
  exact map_eq_self same

end Condition

section

variable [CustomTrigger π] {types : ConditionTypes π} (registered : types.Registered)

include registered

/-- Of the faults in a tree the first counts, a node before its branches. Without a fault the tree
is built again as it was configured, with its progress. -/
theorem ConditionTypes.Registered.rebuild {c : Condition π} (known : c.Builtin) :
    types.rebuild c =
      match c.fault? with
      | some e => .error e
      | none => .ok (c.pristine.map Node.mended) := by
  induction c with
  | absent => rfl
  | node head next alternative ihNext ihAlternative =>
      obtain ⟨root, left, right⟩ := Condition.builtin_node.1 known
      obtain ⟨builder, found, builds⟩ := registered.builds root
      have nextBuilt := ihNext left
      have alternativeBuilt := ihAlternative right
      unfold ConditionTypes.rebuild at nextBuilt alternativeBuilt ⊢
      unfold Condition.fault? at nextBuilt alternativeBuilt ⊢
      rw [Condition.form, build, found]
      dsimp only
      rw [builds, nextBuilt, alternativeBuilt, Condition.nodes, List.findSome?_cons,
        List.findSome?_append]
      cases head.trigger.fault? with
      | some e => rfl
      | none =>
          cases next.nodes.findSome? fun n => n.trigger.fault? with
          | some e => rfl
          | none =>
              cases alternative.nodes.findSome? fun n => n.trigger.fault? with
              | some e => rfl
              | none => rfl

theorem ConditionTypes.Registered.rebuild_of_storable {c : Condition π} (storable : c.Storable) :
    types.rebuild c = .ok c.pristine := by
  have sound : c.fault? = none := Condition.fault?_eq_none.2 fun n member => (storable n member).sound
  rw [registered.rebuild fun n member => (storable n member).builtin, sound, storable.map_mended]

/-! ### Modifiers and stacks -/

/-- From its form a modifier is built as it was configured, with the progress of its duration. -/
theorem ModifierForm.build_form {m : Modifier π} (storable : m.duration.Storable) :
    m.form.build types = .ok m.pristine := by
  have built := registered.rebuild_of_storable storable
  unfold ConditionTypes.rebuild at built
  unfold ModifierForm.build Modifier.form
  dsimp only
  rw [built]
  rfl

/-- From its form a stack is built as it was configured, with the progress of its duration. -/
theorem StackForm.build_form {s : Stack π} (storable : s.duration.Storable) :
    s.form.build types = .ok s.pristine := by
  have built := registered.rebuild_of_storable storable
  unfold ConditionTypes.rebuild at built
  unfold StackForm.build Stack.form
  dsimp only
  rw [built]
  rfl

/-- A tree of countdowns and thresholds is built again exactly if each of them has its numbers, and
then as it was, but for countdowns that have lost the time that is left. Otherwise the first node
that lacks a number is to blame, a node before its branches. -/
theorem ConditionTypes.Registered.trees_built_again {c : Condition π} (known : c.Builtin) :
    ((∃ t, types.rebuild c = .ok t) ↔ ∀ n ∈ c.nodes, n.trigger.Sound) ∧
    (∀ t, types.rebuild c = .ok t → t = c.pristine.map Node.mended) ∧
    (∀ e, types.rebuild c = .error e → ∃ before n after, c.nodes = before ++ n :: after ∧
      (∀ earlier ∈ before, earlier.trigger.Sound) ∧ n.trigger.fault? = some e) ∧
    (∀ m : Modifier π, m.duration.Storable → m.form.build types = .ok m.pristine) ∧
    ∀ s : Stack π, s.duration.Storable → s.form.build types = .ok s.pristine := by
  have built := registered.rebuild known
  refine ⟨?_, ?_, ?_, fun m => ModifierForm.build_form registered,
    fun s => StackForm.build_form registered⟩
  · rw [← Condition.fault?_eq_none, built]
    cases c.fault? with
    | none => simp
    | some e => simp
  · intro t rebuilt
    rw [built] at rebuilt
    cases fault : c.fault? with
    | none =>
        rw [fault] at rebuilt
        cases rebuilt
        rfl
    | some e =>
        rw [fault] at rebuilt
        cases rebuilt
  · intro e failed
    rw [built] at failed
    cases fault : c.fault? with
    | none =>
        rw [fault] at failed
        cases failed
    | some e' =>
        rw [fault] at failed
        cases failed
        obtain ⟨before, n, after, nodes, faulty, sound⟩ := Condition.fault?_eq_some.1 fault
        exact ⟨before, n, after, nodes, sound, faulty⟩

end

open Scenario (ExtraTrigger)

def belowTypes : ConditionTypes ExtraTrigger :=
  ⟨ConditionTypes.builtin.builders.insert "below" (ExtraTrigger.build "below")⟩

/-- Burns for a time that is not told while there is oil enough, and later for two seconds. -/
def lantern (oil : Float32) : Condition ExtraTrigger :=
  .node ⟨.countdown ⟨3, 1 / 0⟩, true, false, false, true, true⟩
    (.ofTrigger (.threshold ⟨"oil", .greater, oil, false⟩))
    (.timed (2 - oil))

theorem lantern_built_again : belowTypes.Registered ∧
    (∃ t, belowTypes.rebuild (lantern 1) = .ok t ∧ t = (lantern 1).pristine.map Node.mended) ∧
    ∃ e before n after, belowTypes.rebuild (lantern 5) = .error e ∧
      (lantern 5).nodes = before ++ n :: after ∧ n.trigger.fault? = some e := by
  have added : ConditionTypes.builtin.register "below" (ExtraTrigger.build "below") =
      .ok belowTypes := rfl
  have registered : belowTypes.Registered := .register .builtin added
  have known (oil : Float32) : (lantern oil).Builtin := by
    intro n member
    simp only [lantern, Condition.timed, Condition.ofTrigger, Node.ofTrigger, Condition.nodes,
      List.append_nil, List.cons_append, List.nil_append, List.mem_cons, List.not_mem_nil,
      or_false] at member
    rcases member with rfl | rfl | rfl
    · trivial
    · trivial
    · trivial
  obtain ⟨whole, same, -⟩ := registered.trees_built_again (known 1)
  obtain ⟨broken, -, first, -⟩ := registered.trees_built_again (known 5)
  obtain ⟨t, rebuilt⟩ := whole.2 (by decide +kernel)
  refine ⟨registered, ⟨t, rebuilt, same t rebuilt⟩, ?_⟩
  cases failed : belowTypes.rebuild (lantern 5) with
  | ok t =>
      have unsound : ¬∀ n ∈ (lantern 5).nodes, n.trigger.Sound := by decide +kernel
      exact absurd (broken.1 ⟨t, failed⟩) unsound
  | error e =>
      obtain ⟨before, n, after, nodes, -, faulty⟩ := first e failed
      exact ⟨e, before, n, after, rfl, nodes, faulty⟩

end StatusEffects
