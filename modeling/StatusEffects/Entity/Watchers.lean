import StatusEffects.Data.Table
import StatusEffects.Entity.Owner

/-!
Owners that watch a stat.
-/

set_option autoImplicit false

namespace StatusEffects

/-- The owners that watch each stat, in the order in which they came. No list is empty. -/
structure Watchers where
  lists : Table (List Owner)

namespace Watchers

def empty : Watchers := ⟨∅⟩

instance : Inhabited Watchers := ⟨empty⟩

def get (w : Watchers) (stat : StatName) : List Owner := (w.lists.get? stat).getD []

def insert (w : Watchers) (stat : StatName) (owner : Owner) : Watchers :=
  if owner ∈ w.get stat then w else ⟨w.lists.insert stat (w.get stat ++ [owner])⟩

def remove (w : Watchers) (owner : Owner) : Watchers :=
  ⟨(w.lists.mapValues fun _ owners => owners.filter (· ≠ owner)).filter
    fun _ owners => !owners.isEmpty⟩

theorem mem_get_insert {w : Watchers} {stat other : StatName} {owner watcher : Owner} :
    watcher ∈ (w.insert stat owner).get other ↔
      watcher ∈ w.get other ∨ (watcher = owner ∧ other = stat) := by
  unfold insert
  split
  · rename_i present
    constructor
    · exact .inl
    · rintro (before | ⟨rfl, rfl⟩)
      · exact before
      · exact present
  · unfold get
    rw [Table.get?_insert]
    split
    · rename_i same
      subst same
      rw [Option.getD_some, List.mem_append, List.mem_singleton]
      simp
    · rename_i different
      simp [different]

theorem mem_get_foldl_insert {w : Watchers} {stats : List StatName} {stat : StatName}
    {owner watcher : Owner} :
    watcher ∈ (stats.foldl (fun w stat => w.insert stat owner) w).get stat ↔
      watcher ∈ w.get stat ∨ (watcher = owner ∧ stat ∈ stats) := by
  induction stats generalizing w with
  | nil => simp
  | cons first rest ih =>
    rw [List.foldl_cons, ih, mem_get_insert, List.mem_cons]
    by_cases same : watcher = owner
    · simp [same, or_assoc]
    · simp [same]

theorem get_remove (w : Watchers) (stat : StatName) (owner : Owner) :
    (w.remove owner).get stat = (w.get stat).filter (· ≠ owner) := by
  unfold remove get
  rw [Table.get?_filter, Table.get?_mapValues]
  cases w.lists.get? stat with
  | none => rfl
  | some owners =>
    rw [Option.map_some, Option.filter_some, Option.getD_some]
    split
    · rfl
    · rename_i empty
      simp only [Bool.not_eq_true', Bool.not_eq_false, List.isEmpty_iff] at empty
      exact empty.symm

theorem mem_get_remove {w : Watchers} {stat : StatName} {owner watcher : Owner} :
    watcher ∈ (w.remove owner).get stat ↔ watcher ∈ w.get stat ∧ watcher ≠ owner := by
  rw [get_remove, List.mem_filter, decide_eq_true_eq]

def Tidy (w : Watchers) : Prop :=
  ∀ stat owners, w.lists.get? stat = some owners → owners ≠ [] ∧ owners.Nodup

theorem Tidy.empty : empty.Tidy := nofun

theorem Tidy.get_nodup {w : Watchers} (tidy : w.Tidy) (stat : StatName) : (w.get stat).Nodup := by
  unfold get
  cases listed : w.lists.get? stat with
  | none => exact .nil
  | some owners => exact (tidy stat owners listed).2

theorem Tidy.ext {w w' : Watchers} (tidy : w.Tidy) (tidy' : w'.Tidy)
    (same : ∀ stat, w.get stat = w'.get stat) : w = w' := by
  have lists : w.lists = w'.lists := by
    refine Table.ext_get? fun stat => ?_
    have equal := same stat
    unfold get at equal
    cases listed : w.lists.get? stat with
    | none =>
        cases listed' : w'.lists.get? stat with
        | none => rfl
        | some owners =>
            rw [listed, listed', Option.getD_none, Option.getD_some] at equal
            exact absurd equal.symm (tidy' stat owners listed').1
    | some owners =>
        cases listed' : w'.lists.get? stat with
        | none =>
            rw [listed, listed', Option.getD_none, Option.getD_some] at equal
            exact absurd equal (tidy stat owners listed).1
        | some owners' =>
            rw [listed, listed', Option.getD_some, Option.getD_some] at equal
            rw [equal]
  calc w = ⟨w.lists⟩ := rfl
    _ = ⟨w'.lists⟩ := by rw [lists]

theorem Tidy.insert {w : Watchers} (tidy : w.Tidy) (stat : StatName) (owner : Owner) :
    (w.insert stat owner).Tidy := by
  unfold Watchers.insert
  split
  · exact tidy
  · rename_i absent
    intro other owners listed
    change (w.lists.insert stat (w.get stat ++ [owner])).get? other = some owners at listed
    rw [Table.get?_insert] at listed
    split at listed
    · cases listed
      constructor
      · simp
      · rw [List.nodup_append]
        refine ⟨tidy.get_nodup stat, List.pairwise_singleton _ _, fun watcher member _ last => ?_⟩
        rw [List.mem_singleton.1 last]
        rintro rfl
        exact absent member
    · exact tidy other owners listed

theorem Tidy.remove {w : Watchers} (tidy : w.Tidy) (owner : Owner) : (w.remove owner).Tidy := by
  intro stat owners listed
  unfold Watchers.remove at listed
  rw [Table.get?_filter, Table.get?_mapValues] at listed
  cases before : w.lists.get? stat with
  | none =>
      rw [before] at listed
      cases listed
  | some all =>
      rw [before, Option.map_some, Option.filter_eq_some_iff] at listed
      obtain ⟨same, kept⟩ := listed
      cases same
      constructor
      · simpa using kept
      · exact (tidy stat all before).2.filter _

end Watchers

end StatusEffects
