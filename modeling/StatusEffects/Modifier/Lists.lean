import StatusEffects.Data.First
import StatusEffects.Modifier.Basic

/-!
The modifiers of an entity, one list for each stat, in the order of their operators.

Of modifiers with operators of one rank the one inserted first stays first.
-/

set_option autoImplicit false

namespace StatusEffects

/-- Modifiers by stat. No list is empty. -/
structure ModifierLists (π : Type) where
  lists : Table (List (Modifier π))

namespace ModifierLists

variable {π : Type}

def empty : ModifierLists π := ⟨∅⟩

instance : Inhabited (ModifierLists π) := ⟨empty⟩

def get (l : ModifierLists π) (stat : StatName) : List (Modifier π) := (l.lists.get? stat).getD []

private def kept (list : List (Modifier π)) : Option (List (Modifier π)) :=
  if list.isEmpty then none else some list

/-- Puts a modifier behind every one whose operator does not rank higher. -/
def place (operators : OperatorTable) (m : Modifier π) (list : List (Modifier π)) :
    List (Modifier π) :=
  let before (other : Modifier π) : Bool := operators.rank other.op ≤ operators.rank m.op
  list.takeWhile before ++ m :: list.dropWhile before

def insert (l : ModifierLists π) (operators : OperatorTable) (m : Modifier π) : ModifierLists π :=
  ⟨l.lists.insert m.stat (place operators m (l.get m.stat))⟩

def find? (l : ModifierLists π) (stat : StatName) (id : Handle) : Option (Modifier π) :=
  (l.get stat).find? fun m => m.id = id

def modify (l : ModifierLists π) (stat : StatName) (id : Handle)
    (change : Modifier π → Modifier π) : ModifierLists π :=
  ⟨l.lists.modify stat (modifyFirst (fun m => m.id = id) change)⟩

def statOf? (l : ModifierLists π) (id : Handle) : Option StatName :=
  (l.lists.entries.find? fun entry => entry.2.any fun m => m.id = id).map Prod.fst

def remove? (l : ModifierLists π) (stat : StatName) (id : Handle) :
    Option (Modifier π × ModifierLists π) :=
  let test (m : Modifier π) : Bool := m.id = id
  match (l.get stat).find? test with
  | none => none
  | some m => some (m, ⟨l.lists.set stat (kept ((l.get stat).eraseP test))⟩)

def toList (l : ModifierLists π) : List (Modifier π) := l.lists.values.flatten

def ofSource (l : ModifierLists π) (source : Option SourceTag) : List (Modifier π) :=
  l.toList.filter fun m => source.all fun s => m.source = some s

def removeSource (l : ModifierLists π) (source : SourceTag) :
    List (Modifier π) × ModifierLists π :=
  (l.ofSource (some source),
    ⟨(l.lists.mapValues fun _ list => list.filter fun m => m.source ≠ some source).filter
      fun _ list => !list.isEmpty⟩)

def size (l : ModifierLists π) : Nat := l.toList.length

def isEmpty (l : ModifierLists π) : Bool := l.lists.isEmpty

/-! ### What the operations do to the lists -/

@[simp] theorem get_empty (stat : StatName) : (empty : ModifierLists π).get stat = [] := rfl

theorem place_perm (operators : OperatorTable) (m : Modifier π) (list : List (Modifier π)) :
    (place operators m list).Perm (m :: list) := by
  unfold place
  refine List.perm_middle.trans (List.Perm.cons m ?_)
  rw [List.takeWhile_append_dropWhile]

theorem get_insert (l : ModifierLists π) (operators : OperatorTable) (m : Modifier π)
    (stat : StatName) :
    (l.insert operators m).get stat =
      if stat = m.stat then place operators m (l.get stat) else l.get stat := by
  unfold insert get
  rw [Table.get?_insert]
  split
  · rename_i same
    rw [same, Option.getD_some]
  · rfl

theorem get_modify (l : ModifierLists π) (stat other : StatName) (id : Handle)
    (change : Modifier π → Modifier π) :
    (l.modify stat id change).get other =
      if other = stat then modifyFirst (fun m => m.id = id) change (l.get other)
      else l.get other := by
  unfold modify get
  rw [Table.get?_modify]
  split
  · cases l.lists.get? other <;> rfl
  · rfl

theorem get_remove? {l rest : ModifierLists π} {stat : StatName} {id : Handle} {m : Modifier π}
    (removed : l.remove? stat id = some (m, rest)) (other : StatName) :
    rest.get other =
      if other = stat then (l.get other).eraseP fun m => m.id = id else l.get other := by
  dsimp only [remove?] at removed
  split at removed
  · cases removed
  · cases removed
    unfold get
    rw [Table.get?_set]
    split
    · rename_i same
      subst same
      unfold kept
      split
      · rename_i empty
        exact (List.isEmpty_iff.1 empty).symm
      · rfl
    · rfl

theorem remove?_eq_none {l : ModifierLists π} {stat : StatName} {id : Handle} :
    l.remove? stat id = none ↔ l.find? stat id = none := by
  dsimp only [remove?, find?]
  split
  · rename_i absent
    simp [absent]
  · rename_i m present
    simp [present]

theorem find?_modify {l : ModifierLists π} {stat : StatName} {id : Handle}
    {change : Modifier π → Modifier π} (keeps : ∀ m : Modifier π, m.id = id → (change m).id = id) :
    (l.modify stat id change).find? stat id = (l.find? stat id).map change := by
  unfold find?
  rw [get_modify, if_pos rfl]
  apply find?_modifyFirst
  intro m same
  exact decide_eq_true (keeps m (of_decide_eq_true same))

theorem get_removeSource (l : ModifierLists π) (source : SourceTag) (stat : StatName) :
    (l.removeSource source).2.get stat =
      (l.get stat).filter fun m => m.source ≠ some source := by
  unfold removeSource get
  rw [Table.get?_filter, Table.get?_mapValues]
  cases l.lists.get? stat with
  | none => rfl
  | some list =>
    rw [Option.map_some, Option.filter_some, Option.getD_some]
    split
    · rfl
    · rename_i empty
      simpa using empty

theorem mem_toList {l : ModifierLists π} {m : Modifier π} :
    m ∈ l.toList ↔ ∃ stat, m ∈ l.get stat := by
  unfold toList Table.values get
  rw [List.mem_flatten]
  constructor
  · rintro ⟨list, filed, member⟩
    obtain ⟨entry, present, rfl⟩ := List.mem_map.1 filed
    refine ⟨entry.1, ?_⟩
    rw [Table.mem_entries_iff.1 present]
    exact member
  · rintro ⟨stat, member⟩
    cases found : l.lists.get? stat with
    | none =>
      rw [found] at member
      cases member
    | some list =>
      rw [found] at member
      exact ⟨list, List.mem_map.2 ⟨(stat, list), Table.mem_entries_iff.2 found, rfl⟩, member⟩

theorem mem_ofSource {l : ModifierLists π} {source : SourceTag} {m : Modifier π} :
    m ∈ l.ofSource (some source) ↔ (∃ stat, m ∈ l.get stat) ∧ m.source = some source := by
  unfold ofSource
  rw [List.mem_filter, mem_toList]
  simp

/-- What is taken of all modifiers follows from what is taken of the modifiers of each stat. -/
theorem map_filter_toList_eq {γ : Type} {l l' : ModifierLists π} {test : Modifier π → Bool}
    {f : Modifier π → γ} (same : ∀ stat,
      ((l.get stat).filter test).map f = ((l'.get stat).filter test).map f) :
    (l.toList.filter test).map f = (l'.toList.filter test).map f := by
  have taken (l : ModifierLists π) : (l.toList.filter test).map f =
      (l.lists.mapValues fun _ list => (list.filter test).map f).values.flatten := by
    unfold toList
    rw [Table.values_mapValues, List.filter_flatten, List.map_flatten, List.map_map]
    rfl
  rw [taken, taken]
  refine Table.flatten_values_eq fun stat => ?_
  have listed (l : ModifierLists π) :
      ((l.lists.mapValues fun _ list => (list.filter test).map f).get? stat).getD [] =
        ((l.get stat).filter test).map f := by
    unfold get
    rw [Table.get?_mapValues]
    cases l.lists.get? stat with
    | none => rfl
    | some list => rfl
  rw [listed, listed]
  exact same stat

theorem filter_toList {l : ModifierLists π} (filed : ∀ stat, ∀ m ∈ l.get stat, m.stat = stat)
    (stat : StatName) : l.toList.filter (fun m => m.stat = stat) = l.get stat := by
  let alone : ModifierLists π := ⟨(∅ : Table _).insert stat (l.get stat)⟩
  have whole : alone.toList = l.get stat := List.append_nil _
  have own (other : StatName) : alone.get other = if other = stat then l.get stat else [] := by
    unfold get
    rw [Table.get?_insert]
    split
    · rfl
    · rfl
  have same : (l.toList.filter fun m => m.stat = stat).map id =
      (alone.toList.filter fun m => m.stat = stat).map id := by
    refine map_filter_toList_eq fun other => ?_
    rw [own]
    split
    · rename_i here
      rw [here]
    · rename_i elsewhere
      rw [List.filter_nil, List.filter_eq_nil_iff.2]
      intro m member equal
      exact elsewhere ((filed other m member).symm.trans (of_decide_eq_true equal))
  rw [List.map_id, List.map_id, whole] at same
  rw [same, List.filter_eq_self]
  exact fun m member => decide_eq_true (filed stat m member)

/-! ### No list is empty -/

def Filled (l : ModifierLists π) : Prop := ∀ stat, l.lists.get? stat ≠ some []

private theorem kept_ne {list : List (Modifier π)} : kept list ≠ some [] := by
  unfold kept
  split
  · nofun
  · rename_i some
    intro same
    rw [Option.some.inj same] at some
    exact some rfl

theorem Filled.empty : (empty : ModifierLists π).Filled := nofun

theorem Filled.insert {l : ModifierLists π} (filled : l.Filled) (operators : OperatorTable)
    (m : Modifier π) : (l.insert operators m).Filled := by
  intro stat
  unfold ModifierLists.insert
  rw [Table.get?_insert]
  split
  · unfold place
    simp
  · exact filled stat

theorem Filled.remove? {l rest : ModifierLists π} (filled : l.Filled) {stat : StatName}
    {id : Handle} {m : Modifier π} (removed : l.remove? stat id = some (m, rest)) : rest.Filled := by
  intro other
  dsimp only [ModifierLists.remove?] at removed
  split at removed
  · cases removed
  · cases removed
    rw [Table.get?_set]
    split
    · exact kept_ne
    · exact filled other

theorem Filled.removeSource {l : ModifierLists π} (source : SourceTag) :
    (l.removeSource source).2.Filled := by
  intro stat
  unfold ModifierLists.removeSource
  rw [Table.get?_filter]
  intro found
  obtain ⟨-, stays⟩ := Option.filter_eq_some_iff.1 found
  cases stays

theorem Filled.isEmpty_iff {l : ModifierLists π} (filled : l.Filled) :
    l.isEmpty = true ↔ l.size = 0 := by
  unfold isEmpty Table.isEmpty size
  rw [List.length_eq_zero_iff, List.isEmpty_iff]
  unfold toList Table.values
  constructor
  · intro none
    rw [none]
    rfl
  · intro none
    rw [List.flatten_eq_nil_iff] at none
    refine List.eq_nil_iff_forall_not_mem.2 fun entry member => ?_
    have empty := none entry.2 (List.mem_map_of_mem member)
    have found := Table.mem_entries_iff.1 member
    rw [empty] at found
    exact filled entry.1 found

/-- Without empty lists the modifiers of each stat are all there is. -/
theorem Filled.ext {l l' : ModifierLists π} (filled : l.Filled) (filled' : l'.Filled)
    (same : ∀ stat, l.get stat = l'.get stat) : l = l' := by
  have tables : l.lists = l'.lists := by
    refine Table.ext_get? fun stat => ?_
    have here := same stat
    unfold get at here
    cases left : l.lists.get? stat with
    | none =>
        cases right : l'.lists.get? stat with
        | none => rfl
        | some list =>
            rw [left, right] at here
            exact absurd (right.trans (congrArg some here.symm)) (filled' stat)
    | some list =>
        cases right : l'.lists.get? stat with
        | none =>
            rw [left, right] at here
            exact absurd (left.trans (congrArg some here)) (filled stat)
        | some other =>
            rw [left, right] at here
            exact congrArg some here
  cases l
  cases l'
  exact congrArg mk tables

end ModifierLists

end StatusEffects
