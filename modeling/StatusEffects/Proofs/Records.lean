import StatusEffects.Json.Decode
import StatusEffects.Proofs.Numbers

/-!
Records that are decoded whatever the order of their members.

A JSON value stays the same value when the members of its objects are arranged in another way. A
decoder that gives every member its place gives the same record for all of these arrangements: each
member is new when it is met, so it settles its own part of the draft and no other one.
-/

set_option autoImplicit false

namespace StatusEffects

/-! ### Tables of lists -/

namespace Table

variable {β : Type}

theorem insertEntry_perm {key : String} {value : β} {entries : List (String × β)}
    (new : key ∉ entries.map Prod.fst) :
    (insertEntry key value entries).Perm ((key, value) :: entries) := by
  induction entries with
  | nil => exact .refl _
  | cons first rest ih =>
      rw [List.map_cons, List.mem_cons, not_or] at new
      rw [insertEntry]
      split
      · exact .refl _
      · rw [if_neg new.1]
        exact ((ih new.2).cons first).trans (.swap ..)

theorem key_notMem {t : Table β} {key : String} (new : t.contains key = false) :
    key ∉ t.entries.map Prod.fst :=
  fun there => Bool.eq_false_iff.1 new (mem_keys.1 there)

/-- A list without two entries of one key is a rearrangement of its table. -/
theorem entries_ofList_perm {entries : List (String × β)} (distinct : (entries.map Prod.fst).Nodup) :
    (ofList entries).entries.Perm entries := by
  have grows (t : Table β) (apart : ((t.entries ++ entries).map Prod.fst).Nodup) :
      (entries.foldl (fun t entry => t.insert entry.1 entry.2) t).entries.Perm
        (t.entries ++ entries) := by
    clear distinct
    induction entries generalizing t with
    | nil => simp
    | cons entry rest ih =>
        have new : entry.1 ∉ t.entries.map Prod.fst := by
          rw [List.map_append, List.nodup_append] at apart
          exact fun there => apart.2.2 _ there entry.1 (by simp) rfl
        have inserted : (t.insert entry.1 entry.2).entries.Perm (entry :: t.entries) :=
          insertEntry_perm new
        have moved : ((t.insert entry.1 entry.2).entries ++ rest).Perm (t.entries ++ entry :: rest) :=
          (inserted.append_right rest).trans List.perm_middle.symm
        exact (ih _ ((moved.map Prod.fst).nodup_iff.2 apart)).trans moved
  exact grows empty distinct

/-- A table has its entries in one order only. -/
theorem eq_of_perm {a b : Table β} (same : a.entries.Perm b.entries) : a = b := by
  refine ext_get? fun key => Option.ext fun value => ?_
  have inA : (key, value) ∈ a.entries ↔ a.get? key = some value := mem_entries_iff
  have inB : (key, value) ∈ b.entries ↔ b.get? key = some value := mem_entries_iff
  rw [← inA, ← inB]
  exact same.mem_iff

end Table

namespace Json

/-! ### Values in another arrangement -/

/-- The second value is the first one, its objects arranged in any way. -/
inductive Rearranged : Json → Json → Prop where
  | same (j : Json) : Rearranged j j
  | arr {items others : List Json} (each : List.Forall₂ Rearranged items others) :
      Rearranged (.arr items) (.arr others)
  | obj {members others : List (String × Json)}
      (names : (others.map Prod.fst).Perm (members.map Prod.fst))
      (each : ∀ name j j', (name, j) ∈ members → (name, j') ∈ others → Rearranged j j') :
      Rearranged (.obj members) (.obj others)

structure Rearranges (members others : List (String × Json)) : Prop where
  names : (others.map Prod.fst).Perm (members.map Prod.fst)
  each : ∀ m' ∈ others, ∃ j, (m'.1, j) ∈ members ∧ j.Rearranged m'.2

/-- A value as it is kept in memory: its floats are finite, and the members of its objects stand in
the order of their names. -/
inductive Canonical : Json → Prop where
  | null : Canonical .null
  | bool (value : Bool) : Canonical (.bool value)
  | int (value : Int) : Canonical (.int value)
  | float {value : Float} (finite : value.isFinite = true) : Canonical (.float value)
  | str (value : String) : Canonical (.str value)
  | arr {items : List Json} (each : ∀ item ∈ items, Canonical item) : Canonical (.arr items)
  | obj {members : List (String × Json)} (sorted : members.Pairwise fun a b => a.1 < b.1)
      (each : ∀ m ∈ members, Canonical m.2) : Canonical (.obj members)

theorem Rearranged.items {items : List Json} {j : Json} (rearranged : (Json.arr items).Rearranged j) :
    ∃ others, j = .arr others ∧ List.Forall₂ Rearranged items others := by
  cases rearranged with
  | same => exact ⟨items, rfl, List.forall₂_same.2 fun item _ => .same item⟩
  | arr each => exact ⟨_, rfl, each⟩

theorem Rearranged.members {members : List (String × Json)} {j : Json}
    (rearranged : (Json.obj members).Rearranged j) : ∃ others, j = .obj others ∧
      Rearranges members others := by
  cases rearranged with
  | same => exact ⟨members, rfl, .refl _, fun m there => ⟨m.2, there, .same _⟩⟩
  | @obj _ others names each =>
      refine ⟨others, rfl, names, fun m there => ?_⟩
      obtain ⟨⟨name, j⟩, before, same⟩ :=
        List.mem_map.1 (names.mem_iff.1 (List.mem_map_of_mem there))
      cases same
      exact ⟨j, before, each _ j m.2 before there⟩

/-- An object may start out from any arrangement of its members. -/
theorem Rearranged.of_perm {members moved : List (String × Json)} {j : Json}
    (perm : moved.Perm members) (distinct : (members.map Prod.fst).Nodup)
    (rearranged : (Json.obj moved).Rearranged j) : (Json.obj members).Rearranged j := by
  cases rearranged with
  | same =>
      refine .obj (perm.map _) fun name j j' before after => ?_
      have equal : (name, j) = (name, j') :=
        List.inj_on_of_nodup_map distinct before (perm.mem_iff.1 after) rfl
      cases equal
      exact .same j
  | obj names each =>
      exact .obj (names.trans (perm.map _)) fun name j j' before after =>
        each name j j' (perm.mem_iff.2 before) after

/-- However a canonical value is arranged, it is read as it was kept. -/
theorem Canonical.value? {j j' : Json} (canonical : j.Canonical) (rearranged : j.Rearranged j') :
    (Source.ofJson j').value? = some j := by
  induction canonical generalizing j' with
  | null => cases rearranged; rfl
  | bool => cases rearranged; rfl
  | int => cases rearranged; rfl
  | str => cases rearranged; rfl
  | float finite =>
      cases rearranged
      exact congrArg some (if_pos finite)
  | @arr items each ih =>
      obtain ⟨others, rfl, pairs⟩ := rearranged.items
      have values : Source.value?.itemValues? (Source.ofJson.ofItems others) = some items := by
        clear each rearranged
        induction pairs with
        | nil => rfl
        | @cons item other rest _ first _ later =>
            rw [Source.ofJson.ofItems, Source.value?.itemValues?,
              ih item (List.mem_cons_self ..) first,
              later fun item there => ih item (List.mem_cons_of_mem _ there)]
      change (Source.value?.itemValues? (Source.ofJson.ofItems others)).map Json.arr = _
      rw [values, Option.map_some]
  | @obj members sorted each ih =>
      obtain ⟨others, rfl, moved⟩ := rearranged.members
      -- The members are read in their new order, each with its own value.
      have values : ∃ read, Source.value?.memberValues? (Source.ofJson.ofMembers others) = some read ∧
          read.map Prod.fst = others.map Prod.fst ∧ ∀ m ∈ read, m ∈ members := by
        have each := moved.each
        clear rearranged moved
        induction others with
        | nil => exact ⟨[], rfl, rfl, nofun⟩
        | cons m rest later =>
            obtain ⟨read, reads, names, known⟩ :=
              later fun m there => each m (List.mem_cons_of_mem _ there)
            obtain ⟨j, before, first⟩ := each m (List.mem_cons_self ..)
            refine ⟨(m.1, j) :: read, ?_, by rw [List.map_cons, List.map_cons, names], ?_⟩
            · rw [Source.ofJson.ofMembers, Source.value?.memberValues?, ih _ before first, reads]
            · intro m' there
              rcases List.mem_cons.1 there with rfl | there
              · exact before
              · exact known m' there
      obtain ⟨read, reads, names, known⟩ := values
      let kept : Table Json := ⟨members, sorted⟩
      have perm : (read.map Prod.fst).Perm (members.map Prod.fst) := by
        rw [names]
        exact moved.names
      have distinct : (read.map Prod.fst).Nodup := perm.nodup_iff.2 kept.nodup_keys
      have all : read.Perm members := by
        refine (List.subperm_of_subset (.of_map _ distinct) known).perm_of_length_le ?_
        simpa using perm.length_eq.ge
      have equal : Table.ofList read = kept :=
        Table.eq_of_perm ((Table.entries_ofList_perm distinct).trans all)
      change (Source.value?.memberValues? (Source.ofJson.ofMembers others)).map Json.object = _
      rw [reads, Option.map_some, Json.object, equal]

/-! ### What a value denotes -/

/-- A value denotes what is decoded from each of its arrangements. -/
def Denotes {α : Type} (decode : Source → Decoded α) (j : Json) (x : α) : Prop :=
  ∀ j', j.Rearranged j' → decodeValue decode j' = .ok x

section

variable {α : Type} {decode : Source → Decoded α}

theorem denotes_text (text : String) : Denotes Source.text (.str text) text := by
  intro j rearranged
  cases rearranged
  rfl

theorem denotes_flag (flag : Bool) : Denotes Source.flag (.bool flag) flag := by
  intro j rearranged
  cases rearranged
  rfl

theorem denotes_count (count : UInt32) : Denotes Source.count (.int count.toNat) count := by
  intro j rearranged
  cases rearranged
  have fits : 0 ≤ (count.toNat : Int) ∧ (count.toNat : Int) < UInt32.size :=
    ⟨Int.natCast_nonneg _, Int.ofNat_lt.2 count.toNat_lt⟩
  have whole : (count.toNat : Int).toNat.toUInt32 = count := by
    rw [Int.toNat_natCast]
    exact UInt32.ofNat_toNat
  have scalar : Source.ofJson (.int count.toNat) = .scalar (.int count.toNat) := rfl
  rw [decodeValue, scalar, Source.count, if_pos fits, whole]
  rfl

theorem denotes_single {x : Float32} (finite : x.isFinite = true) :
    Denotes Source.single (.ofFloat (Single.widen x)) x := by
  obtain ⟨whole, back⟩ := Single.narrow_widen finite
  rw [ofFloat, if_pos whole]
  intro j rearranged
  cases rearranged
  exact congrArg Except.ok back

theorem Denotes.optional {j : Json} {x : α} (denotes : Denotes decode j x) (present : j ≠ .null) :
    Denotes (Source.optional decode) j (some x) := by
  intro j' rearranged
  have decodes := denotes j' rearranged
  have other : j' ≠ .null := by
    rintro rfl
    cases rearranged
    exact present rfl
  unfold decodeValue at decodes ⊢
  unfold Source.optional
  split
  · rename_i null
    cases j' with
    | null => exact absurd rfl other
    | bool => cases null
    | int => cases null
    | float => cases null
    | str => cases null
    | arr => cases null
    | obj => cases null
  · rw [decodes]
    rfl

theorem denotes_list {β : Type} {write : β → Json} {decode : Source → Decoded β} {xs : List β}
    (each : ∀ x ∈ xs, Denotes decode (write x) x) :
    Denotes (Source.list decode) (.arr (xs.map write)) xs := by
  intro j rearranged
  obtain ⟨others, rfl, pairs⟩ := rearranged.items
  have values : (Source.ofJson.ofItems others).mapM decode = .ok xs := by
    clear rearranged
    induction xs generalizing others with
    | nil => cases pairs; rfl
    | cons x rest ih =>
        rw [List.map_cons] at pairs
        cases pairs with
        | cons first later =>
            have value := each x (List.mem_cons_self ..) _ first
            have values := ih (fun x there => each x (List.mem_cons_of_mem _ there)) _ later
            unfold decodeValue at value
            rw [Source.ofJson.ofItems, List.mapM_cons, value, values]
            rfl
  change (do let values ← (Source.ofJson.ofItems others).mapM decode; _) = _
  rw [values]
  rfl

end

/-! ### Drafts of records -/

def kept {β : Type} (t : Table β) (seen : List String) : Table β :=
  t.filter fun key _ => key ∈ seen

section

variable {β : Type} {t : Table β} {seen : List String} {key : String}

theorem get?_kept (t : Table β) (seen : List String) (key : String) :
    (kept t seen).get? key = if key ∈ seen then t.get? key else none := by
  unfold kept
  rw [Table.get?_filter]
  split
  · rename_i there
    cases t.get? key <;> simp [there]
  · rename_i absent
    cases t.get? key <;> simp [absent]

theorem kept_nil (t : Table β) : kept t [] = ∅ := by
  refine Table.ext_get? fun key => ?_
  rw [get?_kept, if_neg List.not_mem_nil]
  rfl

theorem kept_cons_of_none (absent : t.get? key = none) : kept t (key :: seen) = kept t seen := by
  refine Table.ext_get? fun other => ?_
  rw [get?_kept, get?_kept]
  by_cases here : other = key
  · rw [here, absent, ite_self, ite_self]
  · simp [here]

theorem kept_cons {v : β} (found : t.get? key = some v) :
    kept t (key :: seen) = (kept t seen).insert key v := by
  refine Table.ext_get? fun other => ?_
  rw [Table.get?_insert, get?_kept, get?_kept]
  by_cases here : other = key
  · rw [here, if_pos rfl, if_pos (List.mem_cons_self ..), found]
  · simp [here]

theorem kept_all (all : ∀ key v, t.get? key = some v → key ∈ seen) : kept t seen = t := by
  refine Table.ext_get? fun key => ?_
  rw [get?_kept]
  split
  · rfl
  · rename_i absent
    cases found : t.get? key with
    | none => rfl
    | some v => exact absurd (all key v found) absent

end

def given {α : Type} (seen : List String) (name : String) (x : α) : Option α :=
  if name ∈ seen then some x else none

section

variable {α : Type} {decode : Source → Decoded α} {x : α} {seen : List String} {name : String}

theorem given_of_mem (there : name ∈ seen) : given seen name x = some x := if_pos there

theorem given_cons_self : given (name :: seen) name x = some x := given_of_mem (List.mem_cons_self ..)

theorem given_cons_of_ne {other : String} (different : name ≠ other) :
    given (other :: seen) name x = given seen name x := by
  unfold given
  simp [different]

/-- A member that may be left out has its default if it is. -/
theorem getD_given {default : α} (left : name ∉ seen → x = default) :
    (given seen name x).getD default = x := by
  unfold given
  split
  · rfl
  · rename_i absent
    exact (left absent).symm

/-- A member is read when it is met for the first time. -/
theorem Denotes.once {j j' : Json} (denotes : Denotes decode j x) (new : name ∉ seen)
    (rearranged : j.Rearranged j') :
    Source.once name (given seen name x) decode (Source.ofJson j') = .ok (some x) := by
  have decodes := denotes j' rearranged
  unfold decodeValue at decodes
  rw [given, if_neg new, Source.once, decodes]
  rfl

/-- An object denotes a record if each member that is new settles its own part of the draft, and the
draft with all parts is the record. -/
theorem denotes_members {σ : Type} {members : List (String × Json)} {start : σ}
    {finish : σ → Decoded α} (read : σ → List (String × Source) → Decoded σ)
    (distinct : (members.map Prod.fst).Nodup)
    (reads : ∀ others, decode (.obj others .counted) = (read start others).bind finish)
    (ready : ∀ d, read d [] = .ok d) (draft : List String → σ) (starts : start = draft [])
    (steps : ∀ m ∈ members, ∀ seen, m.1 ∉ seen → ∀ j, m.2.Rearranged j → ∀ rest,
      read (draft seen) ((m.1, Source.ofJson j) :: rest) = read (draft (m.1 :: seen)) rest)
    (ends : ∀ seen, (∀ name, name ∈ seen ↔ name ∈ members.map Prod.fst) →
      finish (draft seen) = .ok x) : Denotes decode (.obj members) x := by
  intro j rearranged
  obtain ⟨others, rfl, moved⟩ := rearranged.members
  have run (seen : List String) (new : ∀ m ∈ others, m.1 ∉ seen) :
      read (draft seen) (Source.ofJson.ofMembers others) =
        .ok (draft ((others.map Prod.fst).reverse ++ seen)) := by
    have apart := moved.names.nodup_iff.2 distinct
    have each := moved.each
    clear rearranged moved
    induction others generalizing seen with
    | nil => exact ready _
    | cons m rest ih =>
        rw [List.map_cons, List.nodup_cons] at apart
        obtain ⟨j, before, first⟩ := each m (List.mem_cons_self ..)
        rw [Source.ofJson.ofMembers, List.map_cons, List.reverse_cons, List.append_assoc,
          steps _ before seen (new m (List.mem_cons_self ..)) m.2 first]
        refine ih (m.1 :: seen) (fun m' there => ?_) apart.2
          fun m' there => each m' (List.mem_cons_of_mem _ there)
        rw [List.mem_cons, not_or]
        refine ⟨fun same => apart.1 ?_, new m' (List.mem_cons_of_mem _ there)⟩
        rw [← same]
        exact List.mem_map_of_mem there
  change decode (.obj (Source.ofJson.ofMembers others) .counted) = _
  rw [reads, starts, run [] fun _ _ => List.not_mem_nil]
  refine ends _ fun name => ?_
  rw [List.append_nil, List.mem_reverse]
  exact moved.names.mem_iff

theorem denotes_record {σ : Type} {members : List (String × Json)}
    {step : σ → String → Source → Decoded σ} {start : σ} {finish : σ → Decoded α}
    (distinct : (members.map Prod.fst).Nodup)
    (visits : ∀ others, decode (.obj others .counted) =
      (Source.visit step start others .counted).bind finish)
    (draft : List String → σ) (starts : start = draft [])
    (steps : ∀ m ∈ members, ∀ seen, m.1 ∉ seen → ∀ j, m.2.Rearranged j →
      step (draft seen) m.1 (Source.ofJson j) = .ok (draft (m.1 :: seen)))
    (ends : ∀ seen, (∀ name, name ∈ seen ↔ name ∈ members.map Prod.fst) →
      finish (draft seen) = .ok x) : Denotes decode (.obj members) x := by
  refine denotes_members (fun d members => Source.visit step d members .counted) distinct visits
    (fun d => rfl) draft starts (fun m member seen new j rearranged rest => ?_) ends
  unfold Source.visit
  rw [List.foldlM_cons, steps m member seen new j rearranged]
  rfl

/-- An object denotes the same thing with its members in order. -/
theorem Denotes.object {members : List (String × Json)} (distinct : (members.map Prod.fst).Nodup)
    (denotes : Denotes decode (.obj members) x) : Denotes decode (.object members) x :=
  fun j rearranged => denotes j (rearranged.of_perm (Table.entries_ofList_perm distinct) distinct)

end

theorem denotes_table {β : Type} {write : β → Json} {decode : Source → Decoded β} {t : Table β}
    (each : ∀ key v, t.get? key = some v → Denotes decode (write v) v) :
    Denotes (Source.table decode) (.obj (t.mapValues fun _ v => write v).entries) t := by
  have entry (key : String) (j : Json) : (key, j) ∈ (t.mapValues fun _ v => write v).entries ↔
      ∃ v, t.get? key = some v ∧ write v = j := by
    rw [Table.mem_entries_iff, Table.get?_mapValues, Option.map_eq_some_iff]
  have visits (others : List (String × Source)) : Source.table decode (.obj others .counted) =
      (Source.visit (fun t key s => do return Table.insert t key (← decode s)) ∅ others
        .counted).bind .ok :=
    (bind_pure (m := Except DecodeError) _).symm
  refine denotes_record (Table.nodup_keys _) visits (kept t) (kept_nil t).symm ?_ fun seen all => ?_
  · rintro ⟨key, _⟩ member seen new j rearranged
    obtain ⟨v, found, rfl⟩ := (entry _ _).1 member
    have decodes := each key v found j rearranged
    unfold decodeValue at decodes
    rw [decodes, kept_cons found]
    rfl
  · exact congrArg Except.ok (kept_all fun key v found =>
      (all key).2 (List.mem_map_of_mem ((entry _ _).2 ⟨v, found, rfl⟩)))

end Json

end StatusEffects
