import Mathlib.Data.List.Count
import StatusEffects.Proofs.Ranking

/-!
The lists of modifiers against a stable sort.

Nothing is ever sorted: a modifier goes to its place when it is inserted, and the others stand where
they stood. What comes of any sequence of edits is nevertheless the stable sort of the modifiers that
survive it, in the order in which they were inserted.

- A list in the order of the ranks is determined by its modifiers of each rank
  (`OperatorTable.Ranked.unique`), so it is the stable sort of every list with the same ones.
- Placing, filtering and taking out one modifier do to the sorted list what appending, filtering and
  taking out do to the unsorted one.
- By induction over the edits, the lists stand for the survivors (`ModifierLists.StandsFor`).
-/

set_option autoImplicit false

namespace StatusEffects

variable {π : Type}

namespace OperatorTable

variable (operators : OperatorTable)

def level (rank : Int) (list : List (Modifier π)) : List (Modifier π) :=
  list.filter fun m => operators.rank m.op = rank

def notAfter (a b : Modifier π) : Bool := operators.rank a.op ≤ operators.rank b.op

/-- The stable sort by the ranks of the operators. -/
def sorted (list : List (Modifier π)) : List (Modifier π) := list.mergeSort operators.notAfter

variable {operators} {list : List (Modifier π)} {m : Modifier π}

theorem notAfter_trans (a b c : Modifier π) (first : operators.notAfter a b = true)
    (second : operators.notAfter b c = true) : operators.notAfter a c = true :=
  decide_eq_true (Int.le_trans (of_decide_eq_true first) (of_decide_eq_true second))

theorem notAfter_total (a b : Modifier π) :
    (operators.notAfter a b || operators.notAfter b a) = true := by
  rw [Bool.or_eq_true]
  exact (Int.le_total ..).imp decide_eq_true decide_eq_true

theorem sorted_perm (list : List (Modifier π)) : (operators.sorted list).Perm list :=
  List.mergeSort_perm ..

theorem ranked_sorted (list : List (Modifier π)) : operators.Ranked (operators.sorted list) := by
  have sorts : (operators.sorted list).Pairwise fun a b => operators.notAfter a b = true :=
    List.pairwise_mergeSort notAfter_trans notAfter_total list
  exact sorts.imp of_decide_eq_true

theorem mem_level {rank : Int} : m ∈ operators.level rank list ↔
    m ∈ list ∧ operators.rank m.op = rank := by
  unfold level
  rw [List.mem_filter, decide_eq_true_eq]

theorem level_cons (rank : Int) : operators.level rank (m :: list) =
    if operators.rank m.op = rank then m :: operators.level rank list
    else operators.level rank list := by
  unfold level
  rw [List.filter_cons]
  simp only [decide_eq_true_eq]

theorem mem_of_levels {other : List (Modifier π)}
    (levels : ∀ rank, operators.level rank list = operators.level rank other) (m : Modifier π) :
    m ∈ list ↔ m ∈ other := by
  have own (list : List (Modifier π)) : m ∈ operators.level (operators.rank m.op) list ↔ m ∈ list :=
    mem_level.trans (and_iff_left rfl)
  rw [← own list, levels, own]

/-- Sorting is stable: the modifiers of one rank keep their order. -/
theorem level_sorted (rank : Int) (list : List (Modifier π)) :
    operators.level rank (operators.sorted list) = operators.level rank list := by
  have flat : (operators.level rank list).Pairwise fun a b => operators.notAfter a b = true := by
    refine List.pairwise_of_forall_mem_list fun a first b second => decide_eq_true ?_
    exact Int.le_of_eq ((mem_level.1 first).2.trans (mem_level.1 second).2.symm)
  have kept : (operators.level rank list).Sublist (operators.sorted list) :=
    List.sublist_mergeSort notAfter_trans notAfter_total flat List.filter_sublist
  have within : (operators.level rank (operators.level rank list)).Sublist
      (operators.level rank (operators.sorted list)) := kept.filter _
  have twice : operators.level rank (operators.level rank list) = operators.level rank list :=
    List.filter_eq_self.2 fun _ member => decide_eq_true (mem_level.1 member).2
  rw [twice] at within
  exact (within.eq_of_length ((sorted_perm list).filter _).length_eq.symm).symm

/-- Lists in the order of the ranks are equal if they hold the same modifiers of every rank in the
same order. -/
theorem Ranked.unique {other : List (Modifier π)} (ranked : operators.Ranked list)
    (ranked' : operators.Ranked other)
    (levels : ∀ rank, operators.level rank list = operators.level rank other) : list = other := by
  induction list generalizing other with
  | nil =>
      cases other with
      | nil => rfl
      | cons b rest => cases (mem_of_levels levels b).2 (List.mem_cons_self ..)
  | cons a rest ih =>
      cases other with
      | nil => cases (mem_of_levels levels a).1 (List.mem_cons_self ..)
      | cons b rest' =>
          obtain ⟨later, tail⟩ := List.pairwise_cons.1 ranked
          obtain ⟨later', tail'⟩ := List.pairwise_cons.1 ranked'
          -- Each head is the first of its rank, and neither rank is above the other.
          have below : operators.rank a.op ≤ operators.rank b.op := by
            have present := (mem_of_levels levels b).2 (List.mem_cons_self ..)
            rcases List.mem_cons.1 present with rfl | member
            · exact Int.le_refl _
            · exact later b member
          have above : operators.rank b.op ≤ operators.rank a.op := by
            have present := (mem_of_levels levels a).1 (List.mem_cons_self ..)
            rcases List.mem_cons.1 present with rfl | member
            · exact Int.le_refl _
            · exact later' a member
          have rank := Int.le_antisymm below above
          have heads := levels (operators.rank b.op)
          rw [level_cons, level_cons, if_pos rank, if_pos rfl] at heads
          obtain ⟨rfl, -⟩ := List.cons.inj heads
          have rests (k : Int) : operators.level k rest = operators.level k rest' := by
            have both := levels k
            rw [level_cons, level_cons] at both
            split at both
            · exact (List.cons.inj both).2
            · exact both
          rw [ih tail tail' rests]

/-- A list in the order of the ranks is the stable sort of each list with the same modifiers of every
rank. -/
theorem Ranked.eq_sorted {other : List (Modifier π)} (ranked : operators.Ranked list)
    (levels : ∀ rank, operators.level rank list = operators.level rank other) :
    list = operators.sorted other :=
  ranked.unique (ranked_sorted other) fun rank => (levels rank).trans (level_sorted rank other).symm

/-! ### Edits of the unsorted list -/

theorem place_sorted (m : Modifier π) (list : List (Modifier π)) :
    ModifierLists.place operators m (operators.sorted list) = operators.sorted (list ++ [m]) := by
  refine ((ranked_sorted list).place m).eq_sorted fun rank => ?_
  have placed : operators.level rank (ModifierLists.place operators m (operators.sorted list)) =
      if decide (operators.rank m.op = rank) then
        ModifierLists.place operators m (operators.level rank (operators.sorted list))
      else operators.level rank (operators.sorted list) :=
    filter_place (ranked_sorted list) m fun other => operators.rank other.op = rank
  have appended : operators.level rank (list ++ [m]) =
      operators.level rank list ++ operators.level rank [m] := List.filter_append ..
  rw [level_sorted] at placed
  rw [placed, appended, level_cons]
  by_cases same : operators.rank m.op = rank
  · have last : ∀ other ∈ operators.level rank list,
        operators.rank other.op ≤ operators.rank m.op := fun other member =>
      Int.le_of_eq ((mem_level.1 member).2.trans same.symm)
    rw [if_pos (decide_eq_true same), if_pos same, place_last last]
    rfl
  · rw [if_neg (by simpa using same), if_neg same]
    exact (List.append_nil _).symm

theorem filter_sorted (part : Modifier π → Bool) (list : List (Modifier π)) :
    (operators.sorted list).filter part = operators.sorted (list.filter part) := by
  refine ((ranked_sorted list).sublist List.filter_sublist).eq_sorted fun rank => ?_
  have swapped (list : List (Modifier π)) :
      operators.level rank (list.filter part) = (operators.level rank list).filter part := by
    unfold level
    rw [List.filter_filter, List.filter_filter]
    simp only [Bool.and_comm]
  rw [swapped, level_sorted, swapped]

/-- The first modifier of the sorted list that passes a test is the first one of its rank in the
unsorted list. -/
theorem eraseP_sorted {test : Modifier π → Bool}
    (found : (operators.sorted list).find? test = some m) :
    (operators.sorted list).eraseP test = operators.sorted
      (list.eraseP fun other => test other && operators.rank other.op = operators.rank m.op) := by
  refine ((ranked_sorted list).sublist List.eraseP_sublist).eq_sorted fun rank => ?_
  by_cases same : operators.rank m.op = rank
  · subst same
    have inside : operators.level (operators.rank m.op) ((operators.sorted list).eraseP test) =
        (operators.level (operators.rank m.op) (operators.sorted list)).eraseP test := by
      refine filter_eraseP_of_found fun x first => ?_
      rw [found] at first
      cases first
      exact decide_eq_true rfl
    rw [inside, level_sorted]
    exact List.eraseP_filter
  · have untouched : operators.level rank ((operators.sorted list).eraseP test) =
        operators.level rank (operators.sorted list) := by
      refine filter_eraseP_of_outside fun x first => ?_
      rw [found] at first
      cases first
      exact decide_eq_false same
    have unaffected : operators.level rank (list.eraseP fun other =>
        test other && operators.rank other.op = operators.rank m.op) =
          operators.level rank list := by
      refine filter_eraseP_of_outside fun x first => ?_
      have passes := List.find?_some first
      rw [Bool.and_eq_true, decide_eq_true_eq] at passes
      exact decide_eq_false fun here => same (passes.2.symm.trans here)
    rw [untouched, level_sorted, unaffected]

end OperatorTable

namespace ModifierLists

/-! ### Sequences of edits -/

inductive Edit (π : Type) where
  | insert (m : Modifier π)
  | remove (stat : StatName) (id : Handle)
  | removeSource (source : SourceTag)

def Edit.apply (operators : OperatorTable) (l : ModifierLists π) : Edit π → ModifierLists π
  | .insert m => l.insert operators m
  | .remove stat id =>
    match l.remove? stat id with
    | none => l
    | some (_, rest) => rest
  | .removeSource source => (l.removeSource source).2

/-- What an edit does to the modifiers in the order in which they were inserted. A removal by handle
takes the first modifier with that handle in the sorted list of the stat, which is the earliest one
of its rank. -/
def Edit.survive (operators : OperatorTable) (list : List (Modifier π)) :
    Edit π → List (Modifier π)
  | .insert m => list ++ [m]
  | .remove stat id =>
    match (operators.sorted (list.filter fun m => m.stat = stat)).find? fun m => m.id = id with
    | none => list
    | some m => list.eraseP fun other =>
      other.stat = stat && (other.id = id && operators.rank other.op = operators.rank m.op)
  | .removeSource source => list.filter fun m => m.source ≠ some source

def after (operators : OperatorTable) (edits : List (Edit π)) : ModifierLists π :=
  edits.foldl (Edit.apply operators) empty

def survivors (operators : OperatorTable) (edits : List (Edit π)) : List (Modifier π) :=
  edits.foldl (Edit.survive operators) []

/-- The lists hold certain modifiers, those of each stat in a stable sort, and no empty list. -/
structure StandsFor (operators : OperatorTable) (l : ModifierLists π) (list : List (Modifier π)) :
    Prop where
  get_eq : ∀ stat, l.get stat = operators.sorted (list.filter fun m => m.stat = stat)
  filled : l.Filled

variable {operators : OperatorTable} {l : ModifierLists π} {list : List (Modifier π)}

theorem StandsFor.start (operators : OperatorTable) :
    StandsFor operators (empty : ModifierLists π) [] :=
  ⟨fun _ => List.mergeSort_nil.symm, .empty⟩

theorem StandsFor.insert (stands : StandsFor operators l list) (m : Modifier π) :
    StandsFor operators (l.insert operators m) (list ++ [m]) := by
  refine ⟨fun stat => ?_, stands.filled.insert operators m⟩
  rw [get_insert, stands.get_eq, List.filter_append]
  by_cases here : stat = m.stat
  · subst here
    have own : [m].filter (fun other => other.stat = m.stat) = [m] := by simp
    rw [if_pos rfl, OperatorTable.place_sorted, own]
  · have other : [m].filter (fun other => other.stat = stat) = [] := by
      simpa using fun same => here same.symm
    rw [if_neg here, other, List.append_nil]

theorem StandsFor.removeSource (stands : StandsFor operators l list) (source : SourceTag) :
    StandsFor operators (l.removeSource source).2
      (list.filter fun m => m.source ≠ some source) := by
  refine ⟨fun stat => ?_, .removeSource source⟩
  rw [get_removeSource, stands.get_eq, OperatorTable.filter_sorted, List.filter_filter,
    List.filter_filter]
  simp only [Bool.and_comm]

theorem StandsFor.step (stands : StandsFor operators l list) (edit : Edit π) :
    StandsFor operators (edit.apply operators l) (edit.survive operators list) := by
  cases edit with
  | insert m => exact stands.insert m
  | removeSource source => exact stands.removeSource source
  | remove stat id =>
      dsimp only [Edit.apply, Edit.survive]
      rw [← stands.get_eq]
      cases removed : l.remove? stat id with
      | none =>
          have absent : (l.get stat).find? (fun m => m.id = id) = none := remove?_eq_none.1 removed
          rw [absent]
          exact stands
      | some taken =>
          obtain ⟨gone, rest⟩ := taken
          cases found : (l.get stat).find? fun m => m.id = id with
          | none =>
              have kept := remove?_eq_none.2 found
              rw [removed] at kept
              cases kept
          | some m =>
              refine ⟨fun other => ?_, stands.filled.remove? removed⟩
              rw [get_remove? removed, stands.get_eq]
              rw [stands.get_eq] at found
              by_cases here : other = stat
              · subst here
                rw [if_pos rfl, OperatorTable.eraseP_sorted found, List.eraseP_filter]
                simp only [Bool.and_comm]
              · rw [if_neg here]
                refine congrArg operators.sorted (filter_eraseP_of_outside fun x first => ?_).symm
                have passes := List.find?_some first
                rw [Bool.and_eq_true, decide_eq_true_eq] at passes
                exact decide_eq_false fun same => here (same.symm.trans passes.1)

theorem stands_after (operators : OperatorTable) (edits : List (Edit π)) :
    StandsFor operators (after operators edits) (survivors operators edits) := by
  have run (edits : List (Edit π)) (l : ModifierLists π) (list : List (Modifier π))
      (stands : StandsFor operators l list) :
      StandsFor operators (edits.foldl (Edit.apply operators) l)
        (edits.foldl (Edit.survive operators) list) := by
    induction edits generalizing l list with
    | nil => exact stands
    | cons edit rest ih => exact ih _ _ (stands.step edit)
  exact run edits _ _ (.start operators)

/-- Every modifier stands in the list of one stat, so there are as many as are stood for. -/
theorem StandsFor.size_eq (stands : StandsFor operators l list) : l.size = list.length := by
  have filed (stat : StatName) : ∀ m ∈ l.get stat, m.stat = stat := by
    intro m member
    rw [stands.get_eq, (OperatorTable.sorted_perm _).mem_iff, List.mem_filter] at member
    exact of_decide_eq_true member.2
  refine (perm_of_filter (f := Modifier.stat) fun stat => ?_).length_eq
  rw [filter_toList filed, stands.get_eq]
  exact OperatorTable.sorted_perm _

theorem survivors_insert (operators : OperatorTable) (list : List (Modifier π)) :
    survivors operators (list.map Edit.insert) = list := by
  have run (done : List (Modifier π)) :
      (list.map Edit.insert).foldl (Edit.survive operators) done = done ++ list := by
    induction list generalizing done with
    | nil => exact (List.append_nil done).symm
    | cons m rest ih =>
        change (rest.map Edit.insert).foldl (Edit.survive operators) (done ++ [m]) = _
        rw [ih, List.append_assoc]
        rfl
  exact run []

/-- After any sequence of edits the list of a stat is the stable sort of the modifiers of the stat
that survive, no list is empty, and the numbers are right. So what is inserted in two orders ends up
in the same lists, and is calculated to the same bits, if the orders agree on the modifiers of each
stat and rank. -/
theorem lists_stably_sorted (operators : OperatorTable) (edits : List (Edit π)) :
    (∀ stat, (after operators edits).get stat =
      operators.sorted ((survivors operators edits).filter fun m => m.stat = stat)) ∧
    (∀ stat, (after operators edits).lists.get? stat ≠ some []) ∧
    (after operators edits).size = (survivors operators edits).length ∧
    ((after operators edits).isEmpty = true ↔ (after operators edits).size = 0) ∧
    ∀ first second : List (Modifier π),
      (∀ stat rank, operators.level rank (first.filter fun m => m.stat = stat) =
        operators.level rank (second.filter fun m => m.stat = stat)) →
      after operators (first.map .insert) = after operators (second.map .insert) ∧
      ∀ base stat selection,
        operators.calculate base ((after operators (first.map .insert)).get stat) selection =
          operators.calculate base ((after operators (second.map .insert)).get stat) selection := by
  have stands := stands_after operators edits
  refine ⟨stands.get_eq, stands.filled, stands.size_eq, stands.filled.isEmpty_iff,
    fun first second agree => ?_⟩
  have stands₁ := stands_after operators (first.map Edit.insert)
  have stands₂ := stands_after operators (second.map Edit.insert)
  rw [survivors_insert] at stands₁ stands₂
  have same : after operators (first.map Edit.insert) = after operators (second.map Edit.insert) := by
    refine stands₁.filled.ext stands₂.filled fun stat => ?_
    rw [stands₁.get_eq, stands₂.get_eq]
    refine (OperatorTable.ranked_sorted _).eq_sorted fun rank => ?_
    rw [OperatorTable.level_sorted, agree]
  refine ⟨same, fun base stat selection => ?_⟩
  rw [same]

/-- A percentage may be inserted before or after two additions. -/
theorem percent_anywhere :
    let plus (value : Float32) : Modifier Empty := .ofParts "health" .add value
    let percent : Modifier Empty := .ofParts "health" .percentAdd 2
    (∀ stat rank, OperatorTable.builtin.level rank
        ([plus 1, percent, plus 3].filter fun m => m.stat = stat) =
      OperatorTable.builtin.level rank
        ([percent, plus 1, plus 3].filter fun m => m.stat = stat)) ∧
    after .builtin ([plus 1, percent, plus 3].map .insert) =
      after .builtin ([percent, plus 1, plus 3].map .insert) := by
  intro plus percent
  have agree (stat : StatName) (rank : Int) : OperatorTable.builtin.level rank
        ([plus 1, percent, plus 3].filter fun m => m.stat = stat) =
      OperatorTable.builtin.level rank
        ([percent, plus 1, plus 3].filter fun m => m.stat = stat) := by
    have rankPlus (value : Float32) : OperatorTable.builtin.rank (plus value).op = 1 := rfl
    have rankPercent : OperatorTable.builtin.rank percent.op = 2 := rfl
    have statPlus (value : Float32) : (plus value).stat = "health" := rfl
    have statPercent : percent.stat = "health" := rfl
    by_cases here : "health" = stat
    · -- The percentage is alone in its rank.
      have all (list : List (Modifier Empty)) (own : ∀ m ∈ list, m.stat = stat) :
          list.filter (fun m => m.stat = stat) = list :=
        List.filter_eq_self.2 fun m member => decide_eq_true (own m member)
      rw [all _ (by simp [statPlus, statPercent, here]),
        all _ (by simp [statPlus, statPercent, here])]
      simp only [OperatorTable.level_cons, rankPlus, rankPercent]
      by_cases addition : rank = 1
      · rw [addition]
        rfl
      · simp only [if_neg (Ne.symm addition)]
    · simp [statPlus, statPercent, here]
  exact ⟨agree, ((lists_stably_sorted .builtin []).2.2.2.2 _ _ agree).1⟩

end ModifierLists

end StatusEffects
