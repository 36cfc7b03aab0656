import Mathlib.Data.List.Induction
import Mathlib.Data.List.InsertIdx
import StatusEffects.Operator

/-!
Tables of operators: what calls that add operators make of a new table.

The order, the folds and the names stay in step. Every built-in operator is listed before the first
call, so whatever a call adds is an operator of the game, and its fold is kept under its name. A name
that is listed is refused from then on, which is why a fold is never replaced.
-/

set_option autoImplicit false

namespace StatusEffects

namespace Operator

/-- A name is the name of a built-in operator, or it is free for an operator of a game. -/
theorem ofName_cases (n : String) : ofName n ∈ builtins ∨ ofName n = .custom n := by
  unfold ofName
  cases found : builtins.find? fun op => op.name = n with
  | none => exact .inr rfl
  | some op => exact .inl (List.mem_of_find?_eq_some found)

/-- A built-in operator is the operator of its name. -/
theorem ofName_name : ∀ op ∈ builtins, ofName op.name = op := by
  decide

end Operator

namespace OperatorTable

structure Registration where
  name : String
  /-- The index that is asked for; without one the operator goes after all others. -/
  priority : Option Nat
  fold : Float32 → Float32 → Float32

namespace Registration

def op (r : Registration) : Operator := .ofName r.name

def index (r : Registration) (order : List Operator) : Nat :=
  match r.priority with
  | some priority => Nat.min priority order.length
  | none => order.length

theorem index_le (r : Registration) (order : List Operator) : r.index order ≤ order.length := by
  unfold index
  cases r.priority with
  | none => exact Nat.le_refl _
  | some priority => exact Nat.min_le_right ..

end Registration

def add (table : OperatorTable) (r : Registration) : Except ConfigError OperatorTable :=
  table.register r.name r.priority r.fold

/-- The table after a call, which is the one before if the call fails. -/
def after (table : OperatorTable) (r : Registration) : OperatorTable :=
  (table.add r).toOption.getD table

def made (calls : List Registration) : OperatorTable := calls.foldl after builtin

variable {table : OperatorTable}

/-! ### Single calls -/

theorem add_of_listed {r : Registration} (listed : r.op ∈ table.order) :
    table.add r = .error (.duplicateOperator r.name) :=
  if_pos (decide_eq_true listed)

theorem add_of_not_listed {r : Registration} (fresh : r.op ∉ table.order) :
    table.add r = .ok
      ⟨table.order.insertIdx (r.index table.order) r.op, table.folds.insert r.name r.fold⟩ :=
  if_neg fun listed => fresh (of_decide_eq_true listed)

theorem after_of_listed {r : Registration} (listed : r.op ∈ table.order) :
    table.after r = table := by
  unfold after
  rw [add_of_listed listed]
  rfl

theorem after_of_not_listed {r : Registration} (fresh : r.op ∉ table.order) :
    table.after r =
      ⟨table.order.insertIdx (r.index table.order) r.op, table.folds.insert r.name r.fold⟩ := by
  unfold after
  rw [add_of_not_listed fresh]
  rfl

/-- A call adds its operator to those that are listed, if it is not among them. -/
theorem mem_after {r : Registration} {op : Operator} :
    op ∈ (table.after r).order ↔ op = r.op ∨ op ∈ table.order := by
  by_cases listed : r.op ∈ table.order
  · rw [after_of_listed listed]
    constructor
    · exact .inr
    · rintro (rfl | member)
      · exact listed
      · exact member
  · rw [after_of_not_listed listed]
    exact List.mem_insertIdx (r.index_le _)

/-! ### Tables in step -/

/-- The order lists the built-in operators in their default order and no operator twice. Each other
operator in it is the one of its name, and the folds are those of these operators. -/
structure InStep (table : OperatorTable) : Prop where
  nodup : table.order.Nodup
  builtins : Operator.builtins.Sublist table.order
  custom : ∀ n, .custom n ∈ table.order → Operator.ofName n = .custom n
  folds : ∀ n, (table.folds.get? n).isSome = true ↔ .custom n ∈ table.order

theorem inStep_builtin : builtin.InStep where
  nodup := by decide
  builtins := .refl _
  custom n listed := by
    have builtin : Operator.custom n ∈ Operator.builtins := listed
    simp [Operator.builtins] at builtin
  folds n := by
    have free : Operator.custom n ∉ Operator.builtins := by simp [Operator.builtins]
    constructor
    · intro kept
      cases kept
    · intro listed
      exact (free listed).elim

/-- What a call adds to a table in step is an operator of the game. -/
theorem InStep.op_eq (inStep : table.InStep) {r : Registration} (fresh : r.op ∉ table.order) :
    r.op = .custom r.name := by
  rcases Operator.ofName_cases r.name with builtin | custom
  · exact (fresh (inStep.builtins.subset builtin)).elim
  · exact custom

theorem InStep.after (inStep : table.InStep) (r : Registration) : (table.after r).InStep := by
  by_cases listed : r.op ∈ table.order
  · rw [after_of_listed listed]
    exact inStep
  · have custom := inStep.op_eq listed
    have added : (table.after r).order.Perm (r.op :: table.order) := by
      rw [after_of_not_listed listed]
      exact List.perm_insertIdx r.op table.order (r.index_le _)
    constructor
    · exact added.nodup_iff.2 (List.nodup_cons.2 ⟨listed, inStep.nodup⟩)
    · rw [after_of_not_listed listed]
      exact inStep.builtins.trans (List.sublist_insertIdx ..)
    · intro n member
      rcases mem_after.1 member with same | member
      · rw [custom, Operator.custom.injEq] at same
        rw [same]
        exact custom
      · exact inStep.custom n member
    · intro n
      rw [mem_after, custom, Operator.custom.injEq, ← inStep.folds, after_of_not_listed listed]
      change ((table.folds.insert r.name r.fold).get? n).isSome = true ↔ _
      rw [Table.get?_insert]
      split
      · rename_i same
        simp [same]
      · rename_i other
        simp [other]

theorem InStep.foldl (inStep : table.InStep) (calls : List Registration) :
    (calls.foldl OperatorTable.after table).InStep := by
  induction calls generalizing table with
  | nil => exact inStep
  | cons r rest ih => exact ih (inStep.after r)

theorem inStep_made (calls : List Registration) : (made calls).InStep := inStep_builtin.foldl calls

/-- Every operator of a table in step is the one of its name. -/
theorem InStep.ofName_name (inStep : table.InStep) {op : Operator} (listed : op ∈ table.order) :
    Operator.ofName op.name = op := by
  cases op with
  | custom n => exact inStep.custom n listed
  | baseAdd | add | percentAdd | percentMult | negate | max | min | replace | zero | one =>
      exact Operator.ofName_name _ (by decide)

/-- A name names a listed operator if its operator is listed. -/
theorem InStep.named_iff (inStep : table.InStep) (n : String) :
    (∃ op ∈ table.order, op.name = n) ↔ Operator.ofName n ∈ table.order := by
  constructor
  · rintro ⟨op, listed, rfl⟩
    rw [inStep.ofName_name listed]
    exact listed
  · intro listed
    exact ⟨_, listed, Operator.name_ofName n⟩

/-! ### Places -/

/-- An operator is listed at its place. -/
theorem rank_spec {op : Operator} (listed : op ∈ table.order) :
    ∃ index : Nat, table.rank op = index ∧ table.order[index]? = some op := by
  unfold rank
  cases found : table.order.findIdx? (· = op) with
  | none =>
      have absent := List.findIdx?_eq_none_iff.1 found op listed
      simp at absent
  | some index =>
      obtain ⟨inside, same, -⟩ := List.findIdx?_eq_some_iff_getElem.1 found
      refine ⟨index, rfl, ?_⟩
      rw [List.getElem?_eq_getElem inside, of_decide_eq_true same]

theorem rank_of_not_listed {op : Operator} (absent : op ∉ table.order) : table.rank op = -1 := by
  have none : table.order.findIdx? (· = op) = none := by
    rw [List.findIdx?_eq_none_iff]
    intro other listed
    exact decide_eq_false fun same => absent (same ▸ listed)
  unfold rank
  rw [none]

theorem rank_nonneg_iff (op : Operator) : 0 ≤ table.rank op ↔ table.contains op = true := by
  unfold contains
  rw [decide_eq_true_iff]
  constructor
  · intro place
    by_contra absent
    rw [rank_of_not_listed absent] at place
    omega
  · intro listed
    obtain ⟨index, place, -⟩ := rank_spec listed
    omega

theorem rank_inj {op other : Operator} (listed : op ∈ table.order) (listed' : other ∈ table.order)
    (same : table.rank op = table.rank other) : op = other := by
  obtain ⟨index, place, at_index⟩ := rank_spec listed
  obtain ⟨index', place', at_index'⟩ := rank_spec listed'
  have equal : index = index' := by omega
  rw [equal, at_index'] at at_index
  exact (Option.some.inj at_index).symm

/-! ### Folds -/

/-- An operator of a game folds with the fold that is kept under its name. -/
theorem apply_custom (table : OperatorTable) (n : String) (a b : Float32) :
    table.apply (.custom n) a b = ((table.folds.get? n).map fun fold => fold a b).getD a := by
  unfold OperatorTable.apply
  dsimp only
  cases table.folds.get? n with
  | none => rfl
  | some fold => rfl

theorem get?_folds_after_of_ne {r : Registration} {n : String} (other : r.name ≠ n) :
    (table.after r).folds.get? n = table.folds.get? n := by
  by_cases listed : r.op ∈ table.order
  · rw [after_of_listed listed]
  · rw [after_of_not_listed listed]
    exact Table.get?_insert_of_ne _ _ (Ne.symm other)

/-- The fold of an operator that is listed is never replaced. -/
theorem get?_folds_after_of_listed {n : String} (listed : Operator.ofName n ∈ table.order)
    (r : Registration) : (table.after r).folds.get? n = table.folds.get? n := by
  by_cases same : r.name = n
  · rw [after_of_listed]
    unfold Registration.op
    rw [same]
    exact listed
  · exact get?_folds_after_of_ne same

theorem get?_folds_of_listed {n : String} (listed : Operator.ofName n ∈ table.order)
    (calls : List Registration) :
    (calls.foldl OperatorTable.after table).folds.get? n = table.folds.get? n := by
  induction calls generalizing table with
  | nil => rfl
  | cons r rest ih =>
      rw [List.foldl_cons, ih (mem_after.2 (.inr listed)), get?_folds_after_of_listed listed r]

/-- A call that adds an operator settles its fold for good. -/
theorem get?_folds_made {before later : List Registration} {r : Registration}
    (fresh : r.op ∉ (made before).order) :
    (made (before ++ r :: later)).folds.get? r.name = some r.fold := by
  have parts : made (before ++ r :: later) =
      later.foldl OperatorTable.after ((made before).after r) := List.foldl_append
  rw [parts, get?_folds_of_listed (mem_after.2 (.inl rfl)), after_of_not_listed fresh]
  exact Table.get?_insert_self ..

/-- Calls that are all refused a name keep no fold under it. -/
theorem get?_folds_made_of_refused {n : String} (calls : List Registration)
    (refused : ∀ before r later, calls = before ++ r :: later → r.name = n →
      r.op ∈ (made before).order) : (made calls).folds.get? n = none := by
  induction calls using List.reverseRecOn with
  | nil => rfl
  | append_singleton calls r ih =>
      have earlier : (made calls).folds.get? n = none := by
        apply ih
        intro before r' later whole
        exact refused before r' (later ++ [r]) (by rw [whole, List.append_assoc]; rfl)
      have last : made (calls ++ [r]) = (made calls).after r := List.foldl_append
      rw [last]
      by_cases same : r.name = n
      · rw [after_of_listed (refused calls r [] rfl same)]
        exact earlier
      · rw [get?_folds_after_of_ne same]
        exact earlier

end OperatorTable

open OperatorTable

/-- After any calls on a new table the order lists no operator twice and the built-in ones in their
default order. A further call fails if and only if its name names a listed operator, and then changes
nothing; otherwise its operator comes to the asked index, or to the end, and the others stay in their
order. The listed operators are those with a place, and no two have the same. An operator of a game
folds with the fold of the call that added it, and changes nothing if no call did. -/
theorem registered_operators_stay_in_step (calls : List Registration) :
    ((made calls).order.Nodup ∧ Operator.builtins.Sublist (made calls).order) ∧
    (∀ r : Registration,
      ((∃ op ∈ (made calls).order, op.name = r.name) →
        (made calls).add r = .error (.duplicateOperator r.name) ∧
          (made calls).after r = made calls) ∧
      ((¬∃ op ∈ (made calls).order, op.name = r.name) →
        ∃ table, (made calls).add r = .ok table ∧ (made calls).after r = table ∧
          table.order[r.index (made calls).order]? = some (.ofName r.name) ∧
          table.order.eraseIdx (r.index (made calls).order) = (made calls).order)) ∧
    (∀ op, 0 ≤ (made calls).rank op ↔ (made calls).contains op = true) ∧
    (∀ op other, (made calls).contains op = true → (made calls).contains other = true →
      (made calls).rank op = (made calls).rank other → op = other) ∧
    (∀ before r later, calls = before ++ r :: later →
      (¬∃ op ∈ (made before).order, op.name = r.name) →
        ∀ a b, (made calls).apply (.custom r.name) a b = r.fold a b) ∧
    (∀ n, (∀ before r later, calls = before ++ r :: later → r.name = n →
        ∃ op ∈ (made before).order, op.name = n) →
      ∀ a b, (made calls).apply (.custom n) a b = a) ∧
    ∀ n, (Operator.ofName n).name = n := by
  have inStep := inStep_made calls
  refine ⟨⟨inStep.nodup, inStep.builtins⟩, fun r => ⟨fun named => ?_, fun free => ?_⟩,
    rank_nonneg_iff, fun op other listed listed' same => ?_, fun before r later whole free a b => ?_,
    fun n refused a b => ?_, Operator.name_ofName⟩
  · have listed : r.op ∈ (made calls).order := (inStep.named_iff r.name).1 named
    exact ⟨add_of_listed listed, after_of_listed listed⟩
  · have fresh : r.op ∉ (made calls).order := fun listed => free ((inStep.named_iff r.name).2 listed)
    refine ⟨_, add_of_not_listed fresh, after_of_not_listed fresh, ?_, ?_⟩
    · exact List.getElem?_insertIdx_self.trans (if_pos (r.index_le _))
    · exact List.eraseIdx_insertIdx_self ..
  · exact rank_inj (of_decide_eq_true listed) (of_decide_eq_true listed') same
  · have fresh : r.op ∉ (made before).order := fun listed =>
      free (((inStep_made before).named_iff r.name).2 listed)
    have kept : (made calls).folds.get? r.name = some r.fold := whole ▸ get?_folds_made fresh
    rw [apply_custom, kept]
    rfl
  · have none : (made calls).folds.get? n = none := by
      apply get?_folds_made_of_refused
      intro before r later whole same
      have named := refused before r later whole same
      unfold Registration.op
      rw [same]
      exact ((inStep_made before).named_iff n).1 named
    rw [apply_custom, none]
    rfl

def doubling : Registration := ⟨"double", some 99, fun a _ => 2 * a⟩

/-- The operator goes to the end and doubles, whatever comes after it. -/
theorem doubling_stays : (made [doubling, ⟨"double", some 0, fun a _ => a⟩]).order =
      Operator.builtins ++ [.custom "double"] ∧
    ∀ a b, (made [doubling, ⟨"double", some 0, fun a _ => a⟩]).apply (.custom "double") a b = 2 * a := by
  obtain ⟨-, -, -, -, folds, -⟩ :=
    registered_operators_stay_in_step [doubling, ⟨"double", some 0, fun a _ => a⟩]
  exact ⟨by decide +kernel, folds [] doubling _ rfl (by decide +kernel)⟩

end StatusEffects
