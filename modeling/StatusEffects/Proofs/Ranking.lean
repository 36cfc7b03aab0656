import Mathlib.Data.List.TakeWhile
import StatusEffects.Modifier.Fold
import StatusEffects.Modifier.Lists

/-!
The order of modifiers and what a calculation owes to it.

The list of a stat stands in the order of the ranks of its operators. Of two modifiers of one rank
the earlier one comes first, so what belongs to one owner keeps its order whatever is inserted or
taken out beside it. A calculation does not depend on the order in which the owners come if their
modifiers of one rank commute.
-/

set_option autoImplicit false

namespace StatusEffects

variable {π : Type}

namespace OperatorTable

variable (operators : OperatorTable)

def Ranked (list : List (Modifier π)) : Prop :=
  list.Pairwise fun a b => operators.rank a.op ≤ operators.rank b.op

def precedes (m other : Modifier π) : Bool := operators.rank other.op ≤ operators.rank m.op

variable {operators} {list : List (Modifier π)} {m : Modifier π}

theorem Ranked.sublist {fewer : List (Modifier π)} (ranked : operators.Ranked list)
    (sub : fewer.Sublist list) : operators.Ranked fewer :=
  List.Pairwise.sublist sub ranked

/-- Only the operators count for the order. -/
theorem Ranked.of_ops {other : List (Modifier π)} (ranked : operators.Ranked list)
    (same : other.map Modifier.op = list.map Modifier.op) : operators.Ranked other := by
  have ops (list : List (Modifier π)) : operators.Ranked list ↔
      (list.map Modifier.op).Pairwise fun a b => operators.rank a ≤ operators.rank b := by
    unfold Ranked
    rw [List.pairwise_map]
  rw [ops] at ranked ⊢
  rwa [same]

/-! ### Placing -/

theorem Ranked.takeWhile_precedes (ranked : operators.Ranked list) (m : Modifier π) :
    list.takeWhile (operators.precedes m) = list.filter (operators.precedes m) ∧
      list.dropWhile (operators.precedes m) = list.filter fun other => !operators.precedes m other := by
  induction list with
  | nil => exact ⟨rfl, rfl⟩
  | cons first rest ih =>
      obtain ⟨later, tail⟩ := List.pairwise_cons.1 ranked
      obtain ⟨taken, dropped⟩ := ih tail
      by_cases before : operators.precedes m first = true
      · simp [before, taken, dropped]
      · have none : ∀ other ∈ rest, operators.precedes m other = false := by
          intro other member
          have le := later other member
          simp only [precedes, decide_eq_true_eq, decide_eq_false_iff_not] at before ⊢
          omega
        have kept : rest.filter (fun other => !operators.precedes m other) = rest :=
          List.filter_eq_self.2 fun other member => by rw [none other member]; rfl
        have gone : rest.filter (operators.precedes m) = [] :=
          List.filter_eq_nil_iff.2 fun other member => by rw [none other member]; decide
        simp [before, kept, gone]

theorem place_eq (ranked : operators.Ranked list) (m : Modifier π) :
    ModifierLists.place operators m list = list.filter (operators.precedes m) ++
      m :: list.filter fun other => !operators.precedes m other := by
  obtain ⟨taken, dropped⟩ := ranked.takeWhile_precedes m
  rw [← taken, ← dropped]
  rfl

/-- A relation that holds along a list holds along it with one more modifier, if it holds between
that one and those before and behind its place. -/
theorem pairwise_place {R : Modifier π → Modifier π → Prop} (ranked : operators.Ranked list)
    (along : list.Pairwise R) (m : Modifier π)
    (before : ∀ a ∈ list, operators.rank a.op ≤ operators.rank m.op → R a m)
    (behind : ∀ b ∈ list, operators.rank m.op < operators.rank b.op → R m b) :
    (ModifierLists.place operators m list).Pairwise R := by
  obtain ⟨taken, dropped⟩ := ranked.takeWhile_precedes m
  have whole := List.takeWhile_append_dropWhile (p := operators.precedes m) (l := list)
  rw [taken, dropped] at whole
  rw [place_eq ranked]
  rw [← whole] at along
  obtain ⟨first, last, across⟩ := List.pairwise_append.1 along
  refine List.pairwise_append.2 ⟨first, List.pairwise_cons.2 ⟨fun b member => ?_, last⟩,
    fun a left b right => ?_⟩
  · obtain ⟨present, after⟩ := List.mem_filter.1 member
    simp only [precedes, Bool.not_eq_true', decide_eq_false_iff_not] at after
    exact behind b present (by omega)
  · rcases List.mem_cons.1 right with rfl | member
    · obtain ⟨present, precedes⟩ := List.mem_filter.1 left
      exact before a present (of_decide_eq_true precedes)
    · exact across a left b member

theorem Ranked.place (ranked : operators.Ranked list) (m : Modifier π) :
    operators.Ranked (ModifierLists.place operators m list) :=
  pairwise_place ranked ranked m (fun _ _ => id) fun _ _ => Int.le_of_lt

/-- Among the modifiers that pass a test a new one is placed as if there were no others. -/
theorem filter_place (ranked : operators.Ranked list) (m : Modifier π) (test : Modifier π → Bool) :
    (ModifierLists.place operators m list).filter test =
      if test m then ModifierLists.place operators m (list.filter test) else list.filter test := by
  have swapped (other : Modifier π → Bool) :
      (list.filter other).filter test = (list.filter test).filter other := by
    rw [List.filter_filter, List.filter_filter]
    simp only [Bool.and_comm]
  rw [place_eq ranked, place_eq (ranked.sublist List.filter_sublist), List.filter_append, swapped,
    List.filter_cons, swapped]
  split
  · rfl
  · rw [← (ranked.sublist List.filter_sublist).takeWhile_precedes m |>.1,
      ← ((ranked.sublist List.filter_sublist).takeWhile_precedes m).2,
      List.takeWhile_append_dropWhile]

/-- A modifier that no other one has to follow is placed last. -/
theorem place_last (before : ∀ other ∈ list, operators.rank other.op ≤ operators.rank m.op) :
    ModifierLists.place operators m list = list ++ [m] := by
  have all : ∀ other ∈ list, operators.precedes m other = true := fun other member =>
    decide_eq_true (before other member)
  have none : list.dropWhile (operators.precedes m) = [] := List.dropWhile_eq_nil_iff.2 all
  have whole := List.takeWhile_append_dropWhile (p := operators.precedes m) (l := list)
  rw [none, List.append_nil] at whole
  change list.takeWhile (operators.precedes m) ++ m :: list.dropWhile (operators.precedes m) = _
  rw [none, whole]

theorem map_place {f : Modifier π → Modifier π} (same : ∀ m, (f m).op = m.op) (m : Modifier π)
    (list : List (Modifier π)) : (ModifierLists.place operators m list).map f =
      ModifierLists.place operators (f m) (list.map f) := by
  have tests : operators.precedes (f m) ∘ f = operators.precedes m := by
    funext other
    unfold precedes
    rw [Function.comp_apply, same, same]
  change (list.takeWhile (operators.precedes m) ++ m :: list.dropWhile (operators.precedes m)).map f =
    (list.map f).takeWhile (operators.precedes (f m)) ++
      f m :: (list.map f).dropWhile (operators.precedes (f m))
  rw [List.map_append, List.map_cons, List.takeWhile_map, List.dropWhile_map, tests]

def placed (operators : OperatorTable) (list : List (Modifier π)) : List (Modifier π) :=
  list.foldl (fun placed m => ModifierLists.place operators m placed) []

theorem placed_concat (list : List (Modifier π)) (m : Modifier π) :
    operators.placed (list ++ [m]) = ModifierLists.place operators m (operators.placed list) :=
  List.foldl_append ..

/-! ### Calculating -/

/-- It makes no difference which of two modifiers is applied first. -/
structure Commute (operators : OperatorTable) (a b : Modifier π) : Prop where
  percent : a.op = .percentAdd ↔ b.op = .percentAdd
  apply : ∀ x, operators.apply b.op (operators.apply a.op x a.value) b.value =
    operators.apply a.op (operators.apply b.op x b.value) a.value

theorem foldInto_swap {a b : Modifier π} (commute : operators.Commute a b)
    (rest : List (Modifier π)) (result percent : Float32) :
    operators.foldInto result percent (a :: b :: rest) =
      operators.foldInto result percent (b :: a :: rest) := by
  have swap := commute.apply
  by_cases percents : a.op = .percentAdd
  · have other := commute.percent.1 percents
    rw [percents, other] at swap
    simp only [foldInto, percents, other, if_true, List.head?_cons, Option.any_some,
      decide_true, swap]
  · have other : ¬b.op = .percentAdd := fun same => percents (commute.percent.2 same)
    simp only [foldInto, percents, other, if_false, swap]

theorem foldInto_cons {first second : List (Modifier π)} (m : Modifier π)
    (heads : (first.head?.any fun next => next.op = .percentAdd) =
      second.head?.any fun next => next.op = .percentAdd)
    (same : ∀ result percent, operators.foldInto result percent first =
      operators.foldInto result percent second) (result percent : Float32) :
    operators.foldInto result percent (m :: first) =
      operators.foldInto result percent (m :: second) := by
  simp only [foldInto, heads, same]

/-- A modifier that commutes with all before it may be applied first. -/
theorem foldInto_front {m : Modifier π} (before after : List (Modifier π))
    (commute : ∀ other ∈ before, operators.Commute other m) (result percent : Float32) :
    operators.foldInto result percent (before ++ m :: after) =
      operators.foldInto result percent (m :: (before ++ after)) := by
  induction before generalizing result percent with
  | nil => rfl
  | cons first rest ih =>
      have moved := ih fun other member => commute other (List.mem_cons_of_mem _ member)
      have percents : (first.op = .percentAdd ↔ m.op = .percentAdd) :=
        (commute first (List.mem_cons_self ..)).percent
      have heads : ((rest ++ m :: after).head?.any fun next => next.op = .percentAdd) =
          (m :: (rest ++ after)).head?.any fun next => next.op = .percentAdd := by
        cases rest with
        | nil => rfl
        | cons second rest =>
            have alike := (commute second (by simp)).percent
            simp [alike]
      rw [List.cons_append, foldInto_cons first heads moved,
        foldInto_swap (commute first (List.mem_cons_self ..)), List.cons_append]

/-- Two lists in the order of ranks hold the same modifiers of every owner, each owner's in the same
order. In the second one the owners of modifiers of one rank come in a certain order, and what comes
the other way round in the first one commutes. -/
structure Shuffled {κ : Type} [DecidableEq κ] (operators : OperatorTable) (owner : Modifier π → κ)
    (before : κ → κ → Prop) (first second : List (Modifier π)) : Prop where
  ranked : operators.Ranked first
  ranked' : operators.Ranked second
  same : ∀ k, first.filter (fun m => owner m = k) = second.filter fun m => owner m = k
  ordered : second.Pairwise fun a b => operators.rank a.op = operators.rank b.op →
    owner a ≠ owner b → before (owner a) (owner b)
  commute : first.Pairwise fun a b => operators.rank a.op = operators.rank b.op →
    before (owner b) (owner a) → operators.Commute b a

section

variable {κ : Type} [DecidableEq κ] {owner : Modifier π → κ} {before : κ → κ → Prop}
  {first second : List (Modifier π)}

theorem Shuffled.mem (shuffled : operators.Shuffled owner before first second) {m : Modifier π} :
    m ∈ first ↔ m ∈ second := by
  have picked (list : List (Modifier π)) :
      m ∈ list ↔ m ∈ list.filter fun other => owner other = owner m := by
    rw [List.mem_filter, decide_eq_true_eq, and_iff_left rfl]
  rw [picked first, shuffled.same, ← picked]

/-- What comes first in one list can come first in the other one. -/
theorem Shuffled.cons {m : Modifier π} {rest : List (Modifier π)}
    (shuffled : operators.Shuffled owner before (m :: rest) second) :
    ∃ ahead after, second = ahead ++ m :: after ∧
      (∀ other ∈ ahead, operators.Commute other m) ∧
      operators.Shuffled owner before rest (ahead ++ after) := by
  obtain ⟨later, tail⟩ := List.pairwise_cons.1 shuffled.ranked
  obtain ⟨commutes, inverted⟩ := List.pairwise_cons.1 shuffled.commute
  have own := shuffled.same (owner m)
  rw [List.filter_cons_of_pos (by simp)] at own
  obtain ⟨ahead, after, rfl, others, -, ends⟩ := List.filter_eq_cons_iff.1 own.symm
  refine ⟨ahead, after, rfl, fun other member => ?_, ?_⟩
  · have different : owner other ≠ owner m := fun equal =>
      others other member (decide_eq_true equal)
    have present : other ∈ rest := by
      rcases List.mem_cons.1 (shuffled.mem.2 (List.mem_append_left _ member)) with rfl | present
      · exact absurd rfl different
      · exact present
    have rank : operators.rank m.op = operators.rank other.op := by
      refine Int.le_antisymm (later other present) ?_
      exact (List.pairwise_append.1 shuffled.ranked').2.2 other member m (List.mem_cons_self ..)
    refine commutes other present rank ?_
    exact (List.pairwise_append.1 shuffled.ordered).2.2 other member m (List.mem_cons_self ..)
      rank.symm different
  · have fewer : (ahead ++ after).Sublist (ahead ++ m :: after) :=
      List.Sublist.append_left (List.sublist_cons_self ..) ahead
    refine ⟨tail, shuffled.ranked'.sublist fewer, fun k => ?_, shuffled.ordered.sublist fewer,
      inverted⟩
    have both := shuffled.same k
    rw [List.filter_append, List.filter_cons, List.filter_cons] at both
    rw [List.filter_append]
    by_cases here : owner m = k
    · subst here
      have none : ahead.filter (fun x => owner x = owner m) = [] :=
        List.filter_eq_nil_iff.2 others
      rw [none, List.nil_append, ends]
    · simpa [here] using both

/-- The lists begin both with a percentage or both without one. -/
theorem Shuffled.heads (shuffled : operators.Shuffled owner before first second) :
    (first.head?.any fun next => next.op = .percentAdd) =
      second.head?.any fun next => next.op = .percentAdd := by
  cases first with
  | nil =>
      cases second with
      | nil => rfl
      | cons m rest => cases shuffled.mem.2 (List.mem_cons_self ..)
  | cons m rest =>
      obtain ⟨ahead, after, rfl, commute, -⟩ := shuffled.cons
      cases ahead with
      | nil => rfl
      | cons other ahead =>
          have alike := (commute other (List.mem_cons_self ..)).percent
          simp [alike]

/-- Lists that differ in the order of owners only fold to the same value. -/
theorem Shuffled.foldInto_eq (shuffled : operators.Shuffled owner before first second)
    (result percent : Float32) :
    operators.foldInto result percent first = operators.foldInto result percent second := by
  induction first generalizing second result percent with
  | nil =>
      cases second with
      | nil => rfl
      | cons m rest => cases shuffled.mem.2 (List.mem_cons_self ..)
  | cons m rest ih =>
      obtain ⟨ahead, after, rfl, commute, tail⟩ := shuffled.cons
      rw [foldInto_front ahead after commute]
      exact foldInto_cons m tail.heads (ih tail) result percent

end

end OperatorTable

end StatusEffects
