import Mathlib.Data.List.SplitBy
import Mathlib.Data.List.TakeWhile
import StatusEffects.Modifier.Fold

/-!
A calculation by blocks.

The fold carries the sum of the percentages of a run until the run ends. The same value comes from
a plain fold over the blocks of the list, where a block is a run of adjacent percentages or one
modifier of another operator. It follows that a list may be calculated in two parts wherever no
run is cut.
-/

set_option autoImplicit false

namespace StatusEffects

variable {π : Type}

def Modifier.joins (a b : Modifier π) : Bool := a.op = .percentAdd && b.op = .percentAdd

def Modifier.leading (modifiers : List (Modifier π)) : List (Modifier π) :=
  modifiers.takeWhile fun m => some m.stat = modifiers.head?.map Modifier.stat

def Selection.surviving (selection : Selection) (modifiers : List (Modifier π)) :
    List (Modifier π) :=
  modifiers.filter fun m => !selection.skips m

/-- The blocks that a calculation applies one after the other. -/
def Selection.blocks (selection : Selection) (modifiers : List (Modifier π)) :
    List (List (Modifier π)) :=
  (selection.surviving (Modifier.leading modifiers)).splitBy Modifier.joins

namespace OperatorTable

variable (table : OperatorTable)

/-- Applies a block: a run of percentages by its sum, added up from zero, any other modifier by
itself. -/
def applyBlock (result : Float32) : List (Modifier π) → Float32
  | [] => result
  | m :: rest =>
    if m.op = .percentAdd then
      result * (1 + ((m :: rest).map Modifier.value).foldl (fun sum value => sum + value) 0)
    else table.apply m.op result m.value

/-- A block is a run of percentages or one modifier of another operator. -/
theorem block_cases {block : List (Modifier π)} (filled : block ≠ [])
    (chain : block.IsChain fun a b => a.joins b) :
    (∀ m ∈ block, m.op = .percentAdd) ∨ ∃ m, block = [m] ∧ m.op ≠ .percentAdd := by
  induction block with
  | nil => exact absurd rfl filled
  | cons m rest ih =>
      cases rest with
      | nil =>
          by_cases percent : m.op = .percentAdd
          · exact .inl (by simpa using percent)
          · exact .inr ⟨m, rfl, percent⟩
      | cons next rest =>
          obtain ⟨joined, chain⟩ := List.isChain_cons_cons.1 chain
          have both : m.op = .percentAdd ∧ next.op = .percentAdd := by
            simpa [Modifier.joins] using joined
          rcases ih (by simp) chain with percents | ⟨other, single, different⟩
          · exact .inl (List.forall_mem_cons.2 ⟨both.1, percents⟩)
          · cases single
            exact absurd both.2 different

/-- A run is applied once, at its end: `rest` does not begin with a percentage. -/
theorem foldInto_run (result percent : Float32) {m : Modifier π} {run rest : List (Modifier π)}
    (percents : ∀ other ∈ m :: run, other.op = .percentAdd)
    (ends : ∀ next ∈ rest.head?, next.op ≠ .percentAdd) :
    table.foldInto result percent (m :: run ++ rest) =
      table.foldInto
        (result * (1 + ((m :: run).map Modifier.value).foldl (fun sum value => sum + value) percent))
        0 rest := by
  induction run generalizing m percent with
  | nil =>
      have ended : (rest.head?.any fun next => next.op = .percentAdd) = false := by
        cases rest with
        | nil => rfl
        | cons next rest => simpa using ends
      have own := percents m (List.mem_cons_self ..)
      simp [foldInto, own, ended, apply]
  | cons next run ih =>
      obtain ⟨own, later⟩ := List.forall_mem_cons.1 percents
      have continued := later next (List.mem_cons_self ..)
      have step : table.foldInto result percent (m :: next :: run ++ rest) =
          table.foldInto result (percent + m.value) (next :: run ++ rest) := by
        simp [foldInto, own, continued, apply]
      rw [step, ih (percent + m.value) later]
      rfl

/-- The fold goes block by block. -/
theorem foldInto_flatten {blocks : List (List (Modifier π))} (filled : [] ∉ blocks)
    (chains : ∀ block ∈ blocks, block.IsChain fun a b => a.joins b)
    (apart : blocks.IsChain fun a b => ∃ ha hb, (a.getLast ha).joins (b.head hb) = false)
    (result : Float32) :
    table.foldInto result 0 blocks.flatten = blocks.foldl table.applyBlock result := by
  induction blocks generalizing result with
  | nil => rfl
  | cons block blocks ih =>
      rw [List.mem_cons, not_or] at filled
      obtain ⟨present, filled⟩ := filled
      obtain ⟨chain, chains⟩ := List.forall_mem_cons.1 chains
      obtain ⟨parted, apart⟩ := List.isChain_cons.1 apart
      rw [List.flatten_cons, List.foldl_cons, ← ih filled chains apart]
      rcases block_cases (Ne.symm present) chain with percents | ⟨m, rfl, different⟩
      · cases block with
        | nil => exact absurd rfl present
        | cons m run =>
            have ends : ∀ next ∈ blocks.flatten.head?, next.op ≠ .percentAdd := by
              intro next first percent
              cases blocks with
              | nil => cases first
              | cons second blocks =>
                  obtain ⟨nonempty, nonempty', separate⟩ := parted second rfl
                  have head : next = second.head nonempty' := by
                    rw [List.flatten_cons, List.head?_append_of_ne_nil _ nonempty',
                      List.head?_eq_some_head nonempty'] at first
                    exact (Option.some.inj first).symm
                  rw [← head] at separate
                  have last := percents _ (List.getLast_mem nonempty)
                  simp [Modifier.joins, last, percent] at separate
            rw [foldInto_run table result 0 percents ends, applyBlock,
              if_pos (percents m (List.mem_cons_self ..))]
      · simp [foldInto, applyBlock, different]

theorem selected_eq (selection : Selection) (modifiers : List (Modifier π)) :
    selected selection modifiers = selection.surviving (Modifier.leading modifiers) := by
  cases modifiers with
  | nil => rfl
  | cons m rest => simp [selected, Selection.surviving, Modifier.leading]

theorem foldInto_blocks (result : Float32) (modifiers : List (Modifier π)) :
    table.foldInto result 0 modifiers =
      (modifiers.splitBy Modifier.joins).foldl table.applyBlock result := by
  obtain ⟨whole, filled, chains, apart⟩ := List.splitBy_eq_iff.1
    (rfl : modifiers.splitBy Modifier.joins = modifiers.splitBy Modifier.joins)
  conv_lhs => rw [whole]
  exact foldInto_flatten table filled chains apart result

theorem leading_of_stat {modifiers : List (Modifier π)} {stat : StatName}
    (own : ∀ m ∈ modifiers, m.stat = stat) : Modifier.leading modifiers = modifiers := by
  cases modifiers with
  | nil => rfl
  | cons first rest =>
      refine List.takeWhile_eq_self_iff.2 fun m member => ?_
      have same := (own m member).trans (own first (List.mem_cons_self ..)).symm
      simpa using same

/-- The streaming fold has the value of the fold over blocks, and a list of one stat may be
calculated in two parts unless a run of percentages goes from the one into the other. -/
theorem calculate_blocks (selection : Selection) :
    (∀ (base : Float32) (modifiers : List (Modifier π)),
      table.calculate base modifiers selection =
        (selection.blocks modifiers).foldl table.applyBlock base) ∧
    ∀ (base : Float32) (xs ys : List (Modifier π)) (stat : StatName),
      (∀ m ∈ xs ++ ys, m.stat = stat) →
      (∀ a ∈ (selection.surviving xs).getLast?, ∀ b ∈ (selection.surviving ys).head?,
        ¬(a.op = .percentAdd ∧ b.op = .percentAdd)) →
      table.calculate base (xs ++ ys) selection =
        table.calculate (table.calculate base xs selection) ys selection := by
  have whole (base : Float32) (modifiers : List (Modifier π)) :
      table.calculate base modifiers selection =
        (selection.blocks modifiers).foldl table.applyBlock base := by
    rw [calculate, selected_eq, foldInto_blocks]
    rfl
  refine ⟨whole, fun base xs ys stat own apart => ?_⟩
  have first := leading_of_stat fun m member => own m (List.mem_append_left _ member)
  have second := leading_of_stat fun m member => own m (List.mem_append_right _ member)
  have split : selection.blocks (xs ++ ys) = selection.blocks xs ++ selection.blocks ys := by
    rw [Selection.blocks, Selection.blocks, Selection.blocks, leading_of_stat own, first, second,
      Selection.surviving, List.filter_append]
    refine List.splitBy_append fun a last b head => ?_
    have separate := apart a last b head
    simpa [Modifier.joins] using separate
  rw [whole, whole, whole, split, List.foldl_append]

/-- A run that a hidden modifier stands in, and another one behind a sum: the parts are calculated
one after the other. -/
theorem calculate_blocks_of_runs :
    let xs : List (Modifier Empty) := [.ofParts "health" .percentAdd 0.5,
      { Modifier.ofParts "health" .add 5 with hidden := true }, .ofParts "health" .percentAdd 0.25,
      .ofParts "health" .add 10, { Modifier.ofParts "health" .percentAdd 1 with hidden := true }]
    let ys : List (Modifier Empty) := [.ofParts "health" .percentAdd 0.5]
    builtin.calculate 100 (xs ++ ys) ⟨false, true⟩ =
      builtin.calculate (builtin.calculate 100 xs ⟨false, true⟩) ys ⟨false, true⟩ := by
  intro xs ys
  exact (calculate_blocks builtin ⟨false, true⟩).2 100 xs ys "health" (by decide) (by decide)

end OperatorTable

end StatusEffects
