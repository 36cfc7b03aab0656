/-!
Finite tables keyed by text and kept in the order of their keys.

Two tables with the same look-ups are equal (`Table.ext_get?`), so a table has no hidden history.
Every operation is described by what it does to `get?`.
-/

set_option autoImplicit false

namespace StatusEffects

/-- Entries in strictly increasing order of their keys. -/
structure Table (β : Type) where
  entries : List (String × β)
  sorted : entries.Pairwise fun a b => a.1 < b.1

namespace Table

variable {β γ : Type}

/-! ### Entry lists -/

def lookup (key : String) : List (String × β) → Option β
  | [] => none
  | (k, v) :: rest => if key = k then some v else lookup key rest

def insertEntry (key : String) (value : β) : List (String × β) → List (String × β)
  | [] => [(key, value)]
  | (k, v) :: rest =>
    if key < k then (key, value) :: (k, v) :: rest
    else if key = k then (key, value) :: rest
    else (k, v) :: insertEntry key value rest

theorem lt_of_not_lt_of_ne {a b : String} (notLess : ¬a < b) (different : a ≠ b) : b < a :=
  (String.not_le).1 fun le => different (String.le_antisymm le (String.not_lt.1 notLess))

theorem mem_insertEntry {key : String} {value : β} {entry : String × β}
    {entries : List (String × β)} (member : entry ∈ insertEntry key value entries) :
    entry = (key, value) ∨ entry ∈ entries := by
  induction entries with
  | nil => simpa [insertEntry] using member
  | cons first rest ih =>
    rw [insertEntry] at member
    split at member
    · simpa using member
    · split at member
      · simp only [List.mem_cons] at member ⊢
        exact member.imp_right .inr
      · simp only [List.mem_cons] at member ⊢
        rcases member with same | later
        · exact .inr (.inl same)
        · exact (ih later).imp_right .inr

theorem sorted_insertEntry (key : String) (value : β) {entries : List (String × β)}
    (sorted : entries.Pairwise fun a b => a.1 < b.1) :
    (insertEntry key value entries).Pairwise fun a b => a.1 < b.1 := by
  induction entries with
  | nil => simp [insertEntry]
  | cons first rest ih =>
    have later := (List.pairwise_cons.1 sorted).1
    have tail := (List.pairwise_cons.1 sorted).2
    rw [insertEntry]
    split
    · rename_i less
      refine List.pairwise_cons.2 ⟨fun entry member => ?_, sorted⟩
      rcases List.mem_cons.1 member with rfl | member
      · exact less
      · exact String.lt_trans less (later entry member)
    · split
      · rename_i notLess same
        exact List.pairwise_cons.2 ⟨fun entry member => same ▸ later entry member, tail⟩
      · rename_i notLess different
        refine List.pairwise_cons.2 ⟨fun entry member => ?_, ih tail⟩
        rcases mem_insertEntry member with rfl | member
        · exact lt_of_not_lt_of_ne notLess different
        · exact later entry member

theorem lookup_eq_none {key : String} {entries : List (String × β)}
    (absent : ∀ entry ∈ entries, key ≠ entry.1) : lookup key entries = none := by
  induction entries with
  | nil => rfl
  | cons first rest ih =>
    rw [lookup, if_neg (absent first (by simp))]
    exact ih fun entry member => absent entry (List.mem_cons_of_mem _ member)

theorem lookup_insertEntry (key other : String) (value : β) (entries : List (String × β)) :
    lookup other (insertEntry key value entries) =
      if other = key then some value else lookup other entries := by
  induction entries with
  | nil => simp [insertEntry, lookup]
  | cons first rest ih => grind [insertEntry, lookup]

theorem lookup_filter {key : String} {keep : String × β → Bool} {entries : List (String × β)}
    (sorted : entries.Pairwise fun a b => a.1 < b.1) :
    lookup key (entries.filter keep) = (lookup key entries).filter fun v => keep (key, v) := by
  induction entries with
  | nil => rfl
  | cons first rest ih =>
    obtain ⟨k, v⟩ := first
    have later := (List.pairwise_cons.1 sorted).1
    have tail := ih (List.pairwise_cons.1 sorted).2
    by_cases same : key = k
    · subst same
      have gone : lookup key rest = none :=
        lookup_eq_none fun entry member equal =>
          String.lt_irrefl key (by simpa [← equal] using later entry member)
      by_cases kept : keep (key, v) = true
      · simp [List.filter, kept, lookup, Option.filter]
      · simp [List.filter, kept, lookup, Option.filter, tail, gone]
    · by_cases kept : keep (k, v) = true <;> simp [List.filter, kept, lookup, same, tail]

theorem lookup_of_mem {entry : String × β} {entries : List (String × β)}
    (sorted : entries.Pairwise fun a b => a.1 < b.1) (member : entry ∈ entries) :
    lookup entry.1 entries = some entry.2 := by
  induction entries with
  | nil => cases member
  | cons first rest ih =>
    have later := (List.pairwise_cons.1 sorted).1
    rw [lookup]
    rcases List.mem_cons.1 member with rfl | member
    · simp
    · have less := later entry member
      rw [if_neg fun same => String.lt_irrefl first.1 (by rwa [same] at less)]
      exact ih (List.pairwise_cons.1 sorted).2 member

theorem mem_of_lookup {key : String} {value : β} {entries : List (String × β)}
    (found : lookup key entries = some value) : (key, value) ∈ entries := by
  induction entries with
  | nil => cases found
  | cons first rest ih =>
    rw [lookup] at found
    split at found
    · rename_i same
      cases found
      exact List.mem_cons.2 (.inl (by rw [same]))
    · exact List.mem_cons_of_mem _ (ih found)

theorem lookup_map (change : String → β → γ) (key : String) (entries : List (String × β)) :
    lookup key (entries.map fun entry => (entry.1, change entry.1 entry.2)) =
      (lookup key entries).map (change key) := by
  induction entries with
  | nil => rfl
  | cons first rest ih =>
    simp only [List.map_cons, lookup]
    split
    · rename_i same
      simp [same]
    · exact ih

/-! ### Tables -/

def empty : Table β := ⟨[], .nil⟩

instance : EmptyCollection (Table β) := ⟨empty⟩

instance : Inhabited (Table β) := ⟨empty⟩

def get? (t : Table β) (key : String) : Option β := lookup key t.entries

def contains (t : Table β) (key : String) : Bool := (t.get? key).isSome

def insert (t : Table β) (key : String) (value : β) : Table β :=
  ⟨insertEntry key value t.entries, sorted_insertEntry key value t.sorted⟩

def erase (t : Table β) (key : String) : Table β :=
  ⟨t.entries.filter fun entry => entry.1 ≠ key, t.sorted.filter _⟩

def filter (t : Table β) (keep : String → β → Bool) : Table β :=
  ⟨t.entries.filter fun entry => keep entry.1 entry.2, t.sorted.filter _⟩

def mapValues (t : Table β) (change : String → β → γ) : Table γ :=
  ⟨t.entries.map fun entry => (entry.1, change entry.1 entry.2), by
    rw [List.pairwise_map]; exact t.sorted⟩

def modify (t : Table β) (key : String) (change : β → β) : Table β :=
  t.mapValues fun k v => if k = key then change v else v

/-- Files a value under a key, or takes the entry out when there is no value. -/
def set (t : Table β) (key : String) : Option β → Table β
  | some value => t.insert key value
  | none => t.erase key

def keys (t : Table β) : List String := t.entries.map Prod.fst

def values (t : Table β) : List β := t.entries.map Prod.snd

def size (t : Table β) : Nat := t.entries.length

def isEmpty (t : Table β) : Bool := t.entries.isEmpty

/-- The table of a list of entries; of two entries with one key the later one stays. -/
def ofList (entries : List (String × β)) : Table β :=
  entries.foldl (fun t entry => t.insert entry.1 entry.2) empty

@[simp] theorem get?_empty (key : String) : (∅ : Table β).get? key = none := rfl

theorem get?_insert (t : Table β) (key other : String) (value : β) :
    (t.insert key value).get? other = if other = key then some value else t.get? other :=
  lookup_insertEntry key other value t.entries

@[simp] theorem get?_insert_self (t : Table β) (key : String) (value : β) :
    (t.insert key value).get? key = some value := by
  simp [get?_insert]

theorem get?_insert_of_ne (t : Table β) {key other : String} (value : β) (h : other ≠ key) :
    (t.insert key value).get? other = t.get? other := by
  simp [get?_insert, h]

theorem get?_filter (t : Table β) (keep : String → β → Bool) (key : String) :
    (t.filter keep).get? key = (t.get? key).filter (keep key) :=
  lookup_filter t.sorted

theorem get?_erase (t : Table β) (key other : String) :
    (t.erase key).get? other = if other = key then none else t.get? other := by
  have filtered : (t.erase key).get? other = (t.get? other).filter fun _ => other ≠ key :=
    lookup_filter t.sorted
  rw [filtered]
  cases t.get? other <;> by_cases same : other = key <;> simp [same]

@[simp] theorem get?_erase_self (t : Table β) (key : String) : (t.erase key).get? key = none := by
  simp [get?_erase]

theorem get?_mapValues (t : Table β) (change : String → β → γ) (key : String) :
    (t.mapValues change).get? key = (t.get? key).map (change key) := by
  obtain ⟨entries, sorted⟩ := t
  exact lookup_map change key entries

theorem get?_modify (t : Table β) (key other : String) (change : β → β) :
    (t.modify key change).get? other =
      if other = key then (t.get? other).map change else t.get? other := by
  rw [modify, get?_mapValues]
  cases t.get? other <;> by_cases same : other = key <;> simp [same]

theorem get?_set (t : Table β) (key other : String) (value : Option β) :
    (t.set key value).get? other = if other = key then value else t.get? other := by
  cases value with
  | none => exact get?_erase t key other
  | some value => exact get?_insert t key other value

theorem mem_entries_iff {t : Table β} {entry : String × β} :
    entry ∈ t.entries ↔ t.get? entry.1 = some entry.2 :=
  ⟨lookup_of_mem t.sorted, mem_of_lookup⟩

theorem nodup_keys (t : Table β) : (t.entries.map Prod.fst).Nodup :=
  (List.pairwise_map.2 t.sorted).imp fun less => String.ne_of_lt less

theorem mem_keys {t : Table β} {key : String} : key ∈ t.keys ↔ t.contains key = true := by
  unfold keys contains
  rw [List.mem_map, Option.isSome_iff_exists]
  constructor
  · rintro ⟨entry, member, rfl⟩
    exact ⟨entry.2, mem_entries_iff.1 member⟩
  · rintro ⟨value, found⟩
    exact ⟨(key, value), mem_entries_iff.2 found, rfl⟩

private theorem entries_eq {a b : List (String × β)}
    (sortedA : a.Pairwise fun x y => x.1 < y.1) (sortedB : b.Pairwise fun x y => x.1 < y.1)
    (same : ∀ key, lookup key a = lookup key b) : a = b := by
  induction a generalizing b with
  | nil =>
    cases b with
    | nil => rfl
    | cons first rest =>
      have := same first.1
      simp [lookup] at this
  | cons x xs ih =>
    cases b with
    | nil =>
      have := same x.1
      simp [lookup] at this
    | cons y ys =>
      have headX := (List.pairwise_cons.1 sortedA).1
      have headY := (List.pairwise_cons.1 sortedB).1
      have fromX : x ∈ y :: ys := by
        have found := same x.1
        rw [lookup_of_mem sortedA (List.mem_cons_self ..)] at found
        exact mem_of_lookup found.symm
      have fromY : y ∈ x :: xs := by
        have found := same y.1
        rw [lookup_of_mem sortedB (List.mem_cons_self ..)] at found
        exact mem_of_lookup found
      have heads : x = y := by
        rcases List.mem_cons.1 fromX with equal | later
        · exact equal
        · rcases List.mem_cons.1 fromY with equal | earlier
          · exact equal.symm
          · exact absurd (headX y earlier) (String.lt_asymm (headY x later))
      subst heads
      rw [ih (List.pairwise_cons.1 sortedA).2 (List.pairwise_cons.1 sortedB).2 fun key => ?_]
      have equal := same key
      rw [lookup, lookup] at equal
      by_cases match_ : key = x.1
      · have goneXs : lookup key xs = none :=
          lookup_eq_none fun entry member found =>
            String.lt_irrefl x.1 (by have := headX entry member; rwa [← found, match_] at this)
        have goneYs : lookup key ys = none :=
          lookup_eq_none fun entry member found =>
            String.lt_irrefl x.1 (by have := headY entry member; rwa [← found, match_] at this)
        rw [goneXs, goneYs]
      · simpa [match_] using equal

/-- A table is determined by its look-ups. -/
theorem ext_get? {a b : Table β} (same : ∀ key, a.get? key = b.get? key) : a = b := by
  obtain ⟨entriesA, sortedA⟩ := a
  obtain ⟨entriesB, sortedB⟩ := b
  have := entries_eq sortedA sortedB same
  subst this
  rfl

/-- A change that does not change what is filed leaves the table as it was. -/
theorem modify_eq_self {t : Table β} {key : String} {change : β → β}
    (same : ∀ v, t.get? key = some v → change v = v) : t.modify key change = t := by
  apply ext_get?
  intro other
  rw [get?_modify]
  split
  · rename_i here
    subst here
    cases found : t.get? other with
    | none => rfl
    | some v => rw [Option.map_some, same v found]
  · rfl

theorem modify_modify (t : Table β) (key : String) (first second : β → β) :
    (t.modify key first).modify key second = t.modify key fun v => second (first v) := by
  apply ext_get?
  intro other
  rw [get?_modify, get?_modify, get?_modify]
  split
  · exact Option.map_map ..
  · rfl

theorem erase_modify (t : Table β) (key : String) (change : β → β) :
    (t.modify key change).erase key = t.erase key := by
  apply ext_get?
  intro other
  rw [get?_erase, get?_erase, get?_modify]
  split
  · rfl
  · rfl

theorem mem_values {t : Table β} {v : β} : v ∈ t.values ↔ ∃ key, t.get? key = some v := by
  unfold values
  rw [List.mem_map]
  constructor
  · rintro ⟨entry, member, rfl⟩
    exact ⟨entry.1, mem_entries_iff.1 member⟩
  · rintro ⟨key, found⟩
    exact ⟨(key, v), mem_entries_iff.2 found, rfl⟩

theorem values_mapValues (t : Table β) (change : β → γ) :
    (t.mapValues fun _ v => change v).values = t.values.map change := by
  unfold values mapValues
  rw [List.map_map, List.map_map]
  rfl

/-- All values together do not tell where nothing is filed from where an empty list is. -/
theorem flatten_values_eq {a b : Table (List β)}
    (same : ∀ key, (a.get? key).getD [] = (b.get? key).getD []) :
    a.values.flatten = b.values.flatten := by
  have filled (t : Table (List β)) :
      (t.filter fun _ list => !list.isEmpty).values.flatten = t.values.flatten := by
    change ((t.entries.filter fun entry => !entry.2.isEmpty).map Prod.snd).flatten =
      (t.entries.map Prod.snd).flatten
    induction t.entries with
    | nil => rfl
    | cons entry rest ih =>
        rw [List.filter_cons, List.map_cons, List.flatten_cons, ← ih]
        split
        · rfl
        · rename_i empty
          have none : entry.2 = [] := by simpa using empty
          rw [none, List.nil_append]
  have equal : (a.filter fun _ list => !list.isEmpty) = b.filter fun _ list => !list.isEmpty := by
    apply ext_get?
    intro key
    have here := same key
    rw [get?_filter, get?_filter]
    cases left : a.get? key with
    | none =>
        rw [left, Option.getD_none] at here
        cases right : b.get? key with
        | none => rfl
        | some list =>
            rw [right, Option.getD_some] at here
            rw [← here]
            rfl
    | some list =>
        rw [left, Option.getD_some] at here
        cases right : b.get? key with
        | none =>
            rw [right, Option.getD_none] at here
            rw [here]
            rfl
        | some other =>
            rw [right, Option.getD_some] at here
            rw [here]
  rw [← filled a, equal, filled]

end Table

end StatusEffects
