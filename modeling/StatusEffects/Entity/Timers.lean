import StatusEffects.Entity.Owner

/-!
Owners that wait for time to pass.

Passing time is a walk over the owners by index. Owners that leave during a walk are only marked;
they are taken out when the last open walk ends, so an index means the same owner during a walk.
-/

set_option autoImplicit false

namespace StatusEffects

structure Timers where
  /-- In the order in which they came. -/
  owners : List Owner
  /-- Owners that have left during a walk. -/
  leaving : List Owner
  /-- The number of open walks. -/
  walks : Nat
deriving DecidableEq, Repr

namespace Timers

def empty : Timers := ⟨[], [], 0⟩

instance : Inhabited Timers := ⟨empty⟩

def insert (t : Timers) (owner : Owner) : Timers :=
  { t with
    leaving := t.leaving.filter (· ≠ owner)
    owners := if owner ∈ t.owners then t.owners else t.owners ++ [owner] }

/-- Lets an owner go, at the end of the walk if there is one. -/
def remove (t : Timers) (owner : Owner) : Timers :=
  if 0 < t.walks then
    if owner ∈ t.owners ∧ owner ∉ t.leaving then { t with leaving := t.leaving ++ [owner] } else t
  else { t with owners := t.owners.filter (· ≠ owner) }

def contains (t : Timers) (owner : Owner) : Bool := owner ∈ t.owners && owner ∉ t.leaving

def size (t : Timers) : Nat := t.owners.length - t.leaving.length

def startWalk (t : Timers) : Timers := { t with walks := t.walks + 1 }

/-- Ends a walk; when it was the last open one, those who left are taken out. -/
def endWalk (t : Timers) : Timers :=
  if t.walks ≤ 1 then ⟨t.owners.filter (· ∉ t.leaving), [], 0⟩
  else { t with walks := t.walks - 1 }

/-! ### Who waits -/

theorem contains_iff {t : Timers} {owner : Owner} :
    t.contains owner = true ↔ owner ∈ t.owners ∧ owner ∉ t.leaving := by
  simp [contains]

theorem contains_insert {t : Timers} {owner other : Owner} :
    (t.insert owner).contains other = true ↔ t.contains other = true ∨ other = owner := by
  rw [contains_iff, contains_iff]
  unfold insert
  by_cases same : other = owner
  · subst same
    by_cases present : other ∈ t.owners <;> simp [present]
  · by_cases present : owner ∈ t.owners <;> simp [present, same]

theorem contains_remove {t : Timers} {owner other : Owner} :
    (t.remove owner).contains other = true ↔ t.contains other = true ∧ other ≠ owner := by
  rw [contains_iff, contains_iff]
  unfold remove
  split
  · split
    · simp [and_assoc]
    · rename_i outside
      constructor
      · rintro ⟨present, stays⟩
        refine ⟨⟨present, stays⟩, ?_⟩
        rintro rfl
        exact outside ⟨present, stays⟩
      · exact fun both => both.1
  · simp [and_right_comm]

theorem contains_endWalk {t : Timers} {owner : Owner} :
    t.endWalk.contains owner = true ↔ t.contains owner = true := by
  rw [contains_iff, contains_iff]
  unfold endWalk
  split
  · simp
  · rfl

theorem walks_remove (t : Timers) (owner : Owner) : (t.remove owner).walks = t.walks := by
  unfold remove
  split
  · split
    · rfl
    · rfl
  · rfl

theorem walks_endWalk (t : Timers) : t.endWalk.walks = t.walks - 1 := by
  unfold endWalk
  split
  · dsimp only
    omega
  · rfl

structure Tidy (t : Timers) : Prop where
  distinct : t.owners.Nodup
  settled : t.walks = 0 → t.leaving = []

theorem Tidy.empty : empty.Tidy := ⟨.nil, fun _ => rfl⟩

theorem Tidy.insert {t : Timers} (tidy : t.Tidy) (owner : Owner) : (t.insert owner).Tidy where
  distinct := by
    unfold Timers.insert
    dsimp only
    split
    · exact tidy.distinct
    · rename_i absent
      rw [List.nodup_append]
      refine ⟨tidy.distinct, List.pairwise_singleton _ _, fun other member _ last => ?_⟩
      rw [List.mem_singleton.1 last]
      rintro rfl
      exact absent member
  settled closed := by
    change t.leaving.filter (· ≠ owner) = []
    rw [tidy.settled closed]
    rfl

theorem Tidy.remove {t : Timers} (tidy : t.Tidy) (owner : Owner) : (t.remove owner).Tidy := by
  unfold Timers.remove
  split
  · rename_i walking
    split
    · exact ⟨tidy.distinct, fun closed => absurd closed (Nat.ne_of_gt walking)⟩
    · exact tidy
  · exact ⟨tidy.distinct.filter _, tidy.settled⟩

theorem Tidy.startWalk {t : Timers} (tidy : t.Tidy) : t.startWalk.Tidy :=
  ⟨tidy.distinct, fun closed => absurd closed (Nat.succ_ne_zero _)⟩

theorem Tidy.endWalk {t : Timers} (tidy : t.Tidy) : t.endWalk.Tidy := by
  unfold Timers.endWalk
  split
  · exact ⟨tidy.distinct.filter _, fun _ => rfl⟩
  · exact ⟨tidy.distinct, fun closed => by dsimp only at closed; omega⟩

/-- Without a walk the owners are those who wait. -/
theorem Tidy.mem_owners {t : Timers} (tidy : t.Tidy) (closed : t.walks = 0) {owner : Owner} :
    owner ∈ t.owners ↔ t.contains owner = true := by
  rw [contains_iff, tidy.settled closed]
  simp

end Timers

end StatusEffects
