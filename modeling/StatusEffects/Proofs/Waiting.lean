import Mathlib.Data.Finset.Card
import Mathlib.Data.Finset.SDiff
import Mathlib.Data.List.Infix
import StatusEffects.Entity.Timers

/-!
The owners that wait for time, as a set.

During a walk nobody is taken out of the list of owners: who leaves is marked, and who comes back
before the walk is over loses the mark. The owners without a mark are at every moment the set that
plain insertions and removals make, however walks are nested in each other. While some walk is open
the list only grows at its end, so an index stands for one owner until the outermost walk ends.
-/

set_option autoImplicit false

namespace StatusEffects.Timers

/-! ### Changes -/

/-- A change of the owners that wait, or of the walks that are open. -/
inductive Change where
  | insert (owner : Owner)
  | remove (owner : Owner)
  | startWalk
  | endWalk
deriving DecidableEq, Repr

def Change.apply (t : Timers) : Change → Timers
  | .insert owner => t.insert owner
  | .remove owner => t.remove owner
  | .startWalk => t.startWalk
  | .endWalk => t.endWalk

/-- What a change does to a plain set, for which walks do not matter. -/
def Change.applyPlain (s : Finset Owner) : Change → Finset Owner
  | .insert owner => Insert.insert owner s
  | .remove owner => s.erase owner
  | .startWalk | .endWalk => s

def after (changes : List Change) : Timers := changes.foldl Change.apply empty

def waiting (changes : List Change) : Finset Owner := changes.foldl Change.applyPlain ∅

def openWalks (changes : List Change) : Nat :=
  changes.count .startWalk - changes.count .endWalk

/-- The end of each walk matches an earlier start. -/
def Balanced (changes : List Change) : Prop :=
  ∀ before, before <+: changes → before.count .endWalk ≤ before.count .startWalk

instance (changes : List Change) : Decidable (Balanced changes) :=
  decidable_of_iff (∀ before ∈ changes.inits, before.count .endWalk ≤ before.count .startWalk) <| by
    simp only [List.mem_inits, Balanced]

variable {changes before during : List Change} {t : Timers}

@[simp] theorem after_concat (changes : List Change) (c : Change) :
    after (changes ++ [c]) = c.apply (after changes) :=
  List.foldl_append

@[simp] theorem waiting_concat (changes : List Change) (c : Change) :
    waiting (changes ++ [c]) = c.applyPlain (waiting changes) :=
  List.foldl_append

theorem Balanced.of_isPrefix (balanced : Balanced changes) (part : before <+: changes) :
    Balanced before :=
  fun first within => balanced first (within.trans part)

/-! ### Lists that belong together -/

structure Deferring (t : Timers) : Prop extends Tidy t where
  once : t.leaving.Nodup
  within : ∀ owner ∈ t.leaving, owner ∈ t.owners

theorem Deferring.empty : empty.Deferring :=
  ⟨Tidy.empty, .nil, fun _ marked => (List.not_mem_nil marked).elim⟩

theorem Deferring.insert (deferring : t.Deferring) (owner : Owner) :
    (t.insert owner).Deferring where
  toTidy := deferring.toTidy.insert owner
  once := deferring.once.filter _
  within other marked := by
    have present := deferring.within other (List.mem_filter.1 marked).1
    unfold Timers.insert
    dsimp only
    split
    · exact present
    · exact List.mem_append_left _ present

theorem Deferring.remove (deferring : t.Deferring) (owner : Owner) :
    (t.remove owner).Deferring := by
  refine ⟨deferring.toTidy.remove owner, ?_, ?_⟩
  · unfold Timers.remove
    split
    · split
      · rename_i stays
        rw [List.nodup_append]
        refine ⟨deferring.once, List.pairwise_singleton _ _, fun other marked _ last => ?_⟩
        rw [List.mem_singleton.1 last]
        rintro rfl
        exact stays.2 marked
      · exact deferring.once
    · exact deferring.once
  · intro other marked
    unfold Timers.remove at marked ⊢
    split at marked
    · rename_i walking
      rw [if_pos walking]
      split at marked
      · rename_i stays
        rw [if_pos stays]
        rcases List.mem_append.1 marked with earlier | last
        · exact deferring.within other earlier
        · rw [List.mem_singleton.1 last]
          exact stays.1
      · rename_i stays
        rw [if_neg stays]
        exact deferring.within other marked
    · -- Outside a walk nobody is marked.
      rename_i closed
      rw [deferring.settled (Nat.eq_zero_of_not_pos closed)] at marked
      exact (List.not_mem_nil marked).elim

theorem Deferring.endWalk (deferring : t.Deferring) : t.endWalk.Deferring := by
  refine ⟨deferring.toTidy.endWalk, ?_, ?_⟩
  · unfold Timers.endWalk
    split
    · exact .nil
    · exact deferring.once
  · intro owner marked
    unfold Timers.endWalk at marked ⊢
    split at marked
    · exact (List.not_mem_nil marked).elim
    · rename_i inner
      rw [if_neg inner]
      exact deferring.within owner marked

theorem Deferring.apply (deferring : t.Deferring) (c : Change) : (c.apply t).Deferring := by
  cases c with
  | insert owner => exact deferring.insert owner
  | remove owner => exact deferring.remove owner
  | startWalk => exact ⟨deferring.toTidy.startWalk, deferring.once, deferring.within⟩
  | endWalk => exact deferring.endWalk

theorem deferring_after (changes : List Change) : (after changes).Deferring := by
  induction changes using List.reverseRecOn with
  | nil => exact .empty
  | append_singleton changes c ih =>
      rw [after_concat]
      exact ih.apply c

/-! ### The set of those who wait -/

def present (t : Timers) : Finset Owner := t.owners.toFinset \ t.leaving.toFinset

theorem mem_present {owner : Owner} : owner ∈ t.present ↔ t.contains owner = true := by
  rw [contains_iff, present, Finset.mem_sdiff, List.mem_toFinset, List.mem_toFinset]

theorem present_apply (t : Timers) (c : Change) : (c.apply t).present = c.applyPlain t.present := by
  ext owner
  cases c with
  | insert other =>
      rw [mem_present, Change.apply, contains_insert, Change.applyPlain, Finset.mem_insert,
        mem_present, or_comm]
  | remove other =>
      rw [mem_present, Change.apply, contains_remove, Change.applyPlain, Finset.mem_erase,
        mem_present, and_comm]
  | startWalk => rfl
  | endWalk =>
      rw [mem_present, Change.apply, contains_endWalk, Change.applyPlain, mem_present]

theorem present_after (changes : List Change) : (after changes).present = waiting changes := by
  induction changes using List.reverseRecOn with
  | nil => rfl
  | append_singleton changes c ih => rw [after_concat, present_apply, ih, waiting_concat]

theorem Deferring.length_le (deferring : t.Deferring) : t.leaving.length ≤ t.owners.length :=
  (deferring.once.subperm deferring.within).length_le

theorem Deferring.size_eq (deferring : t.Deferring) : t.size = t.present.card := by
  have within : t.leaving.toFinset ⊆ t.owners.toFinset := by
    intro owner marked
    rw [List.mem_toFinset] at marked ⊢
    exact deferring.within owner marked
  rw [present, Finset.card_sdiff_of_subset within, List.toFinset_card_of_nodup deferring.distinct,
    List.toFinset_card_of_nodup deferring.once, size]

/-! ### Walks -/

theorem openWalks_startWalk (balanced : Balanced changes) :
    openWalks (changes ++ [.startWalk]) = openWalks changes + 1 := by
  have ended := balanced changes (List.prefix_refl _)
  have started : [Change.startWalk].count .startWalk = 1 := rfl
  have unended : [Change.startWalk].count .endWalk = 0 := rfl
  unfold openWalks
  rw [List.count_append, List.count_append, started, unended]
  omega

theorem openWalks_endWalk (changes : List Change) :
    openWalks (changes ++ [.endWalk]) = openWalks changes - 1 := by
  have unstarted : [Change.endWalk].count .startWalk = 0 := rfl
  have ended : [Change.endWalk].count .endWalk = 1 := rfl
  unfold openWalks
  rw [List.count_append, List.count_append, unstarted, ended]
  omega

theorem walks_apply (t : Timers) (c : Change) : (c.apply t).walks = match c with
    | .insert _ | .remove _ => t.walks
    | .startWalk => t.walks + 1
    | .endWalk => t.walks - 1 := by
  cases c with
  | insert owner => rfl
  | remove owner => exact walks_remove t owner
  | startWalk => rfl
  | endWalk => exact walks_endWalk t

theorem walks_after (balanced : Balanced changes) : (after changes).walks = openWalks changes := by
  induction changes using List.reverseRecOn with
  | nil => rfl
  | append_singleton changes c ih =>
      have earlier := balanced.of_isPrefix (List.prefix_append changes [c])
      rw [after_concat, walks_apply, ih earlier]
      cases c with
      | insert owner => simp [openWalks]
      | remove owner => simp [openWalks]
      | startWalk => exact (openWalks_startWalk earlier).symm
      | endWalk => exact (openWalks_endWalk changes).symm

/-- As long as a walk stays open, owners only come, and they come at the end. -/
theorem owners_apply {c : Change} (walking : 0 < t.walks) (still : 0 < (c.apply t).walks) :
    t.owners <+: (c.apply t).owners := by
  cases c with
  | insert owner =>
      change t.owners <+: (t.insert owner).owners
      unfold Timers.insert
      dsimp only
      split
      · exact List.prefix_refl _
      · exact List.prefix_append _ _
  | remove owner =>
      change t.owners <+: (t.remove owner).owners
      unfold Timers.remove
      rw [if_pos walking]
      split
      · exact List.prefix_refl _
      · exact List.prefix_refl _
  | startWalk => exact List.prefix_refl _
  | endWalk =>
      rw [walks_apply] at still
      change t.owners <+: t.endWalk.owners
      unfold Timers.endWalk
      rw [if_neg (by dsimp only at still; omega)]

theorem owners_grow (balanced : Balanced (before ++ during))
    (walking : ∀ part, part <+: during → 0 < openWalks (before ++ part)) :
    (after before).owners <+: (after (before ++ during)).owners := by
  induction during using List.reverseRecOn with
  | nil => rw [List.append_nil]
  | append_singleton during c ih =>
      rw [← List.append_assoc] at balanced ⊢
      have earlier := balanced.of_isPrefix (List.prefix_append (before ++ during) [c])
      have there := walking during (List.prefix_append _ _)
      have still := walking (during ++ [c]) (List.prefix_refl _)
      rw [← List.append_assoc] at still
      rw [← walks_after earlier] at there
      rw [← walks_after balanced] at still
      have grown := ih earlier fun part within => walking part (within.trans (List.prefix_append _ _))
      rw [after_concat] at still ⊢
      exact grown.trans (owners_apply there still)

/-- The two lists make up a set whose removals are put off while a walk is open. -/
theorem changes_keep_a_set (balanced : Balanced changes) :
    (after changes).owners.Nodup ∧ (after changes).leaving.Nodup ∧
    (∀ owner ∈ (after changes).leaving, owner ∈ (after changes).owners) ∧
    (after changes).leaving.length ≤ (after changes).owners.length ∧
    (after changes).walks = openWalks changes ∧
    (openWalks changes = 0 → (after changes).leaving = []) ∧
    (after changes).owners.toFinset \ (after changes).leaving.toFinset = waiting changes ∧
    (∀ owner, (after changes).contains owner = true ↔ owner ∈ waiting changes) ∧
    (after changes).size = (waiting changes).card ∧
    ∀ before during : List Change, changes = before ++ during →
      (∀ part, part <+: during → 0 < openWalks (before ++ part)) →
        (after before).owners <+: (after changes).owners ∧
        ∀ (index : Nat) (owner : Owner), (after before).owners[index]? = some owner →
          (after changes).owners[index]? = some owner := by
  have deferring := deferring_after changes
  have plain := present_after changes
  refine ⟨deferring.distinct, deferring.once, deferring.within, deferring.length_le,
    walks_after balanced, fun closed => ?_, plain, fun owner => ?_, ?_, ?_⟩
  · exact deferring.settled ((walks_after balanced).trans closed)
  · rw [← plain, mem_present]
  · rw [deferring.size_eq, plain]
  · rintro before during rfl walking
    have grown := owners_grow balanced walking
    refine ⟨grown, fun index owner named => ?_⟩
    obtain ⟨inside, same⟩ := List.getElem?_eq_some_iff.1 named
    rw [← same]
    exact List.prefix_iff_getElem?.1 grown index inside

def bearer (id : Handle) : Owner := .modifier "health" id

/-- Inside two walks a new owner comes, and of two that leave one comes back. -/
def bustle : List Change :=
  [.insert (bearer 1), .insert (bearer 2), .startWalk, .remove (bearer 1), .startWalk,
    .insert (bearer 3), .insert (bearer 1), .remove (bearer 2), .endWalk]

/-- While the outer walk is open the one that leaves is only marked and the others keep their places;
when it ends there are two owners left. -/
theorem bustle_keeps_a_set : Balanced bustle ∧ Balanced (bustle ++ [.endWalk]) ∧
    (after bustle).owners = [bearer 1, bearer 2, bearer 3] ∧
    (after bustle).leaving = [bearer 2] ∧
    (after bustle).size = (waiting bustle).card ∧ (waiting bustle).card = 2 ∧
    (after (bustle.take 3)).owners <+: (after bustle).owners ∧
    (after (bustle ++ [.endWalk])).leaving = [] ∧
    (after (bustle ++ [.endWalk])).size = (waiting bustle).card := by
  have balanced : Balanced bustle := by decide
  have closed : Balanced (bustle ++ [.endWalk]) := by decide
  obtain ⟨-, -, -, -, -, -, -, -, size, grows⟩ := changes_keep_a_set balanced
  obtain ⟨-, -, -, -, -, settled, -, -, size', -⟩ := changes_keep_a_set closed
  have walking : ∀ part ∈ (bustle.drop 3).inits, 0 < openWalks (bustle.take 3 ++ part) := by decide
  refine ⟨balanced, closed, by decide, by decide, size, by decide, ?_, settled (by decide), size'⟩
  exact (grows (bustle.take 3) (bustle.drop 3) rfl fun part within =>
    walking part ((List.mem_inits ..).2 within)).1

end StatusEffects.Timers
