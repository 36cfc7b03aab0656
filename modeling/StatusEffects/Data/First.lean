/-!
The first element of a list that passes a test, such as having a given key.

Where no two elements have the same key it is the only one with that key, so taking it out keeps
exactly the others.
-/

set_option autoImplicit false

namespace StatusEffects

variable {α κ : Type}

def modifyFirst (test : α → Bool) (change : α → α) : List α → List α
  | [] => []
  | x :: rest => if test x then change x :: rest else x :: modifyFirst test change rest

/-! ### Changing the first element -/

theorem map_modifyFirst {β : Type} {test : α → Bool} {change : α → α} {view : α → β}
    (same : ∀ x, test x = true → view (change x) = view x) (list : List α) :
    (modifyFirst test change list).map view = list.map view := by
  induction list with
  | nil => rfl
  | cons x rest ih =>
    rw [modifyFirst]
    split
    · rename_i passes
      rw [List.map_cons, List.map_cons, same x passes]
    · rw [List.map_cons, List.map_cons, ih]

theorem mem_modifyFirst {test : α → Bool} {change : α → α} {y : α} {list : List α}
    (member : y ∈ modifyFirst test change list) :
    y ∈ list ∨ ∃ x, list.find? test = some x ∧ y = change x := by
  induction list with
  | nil => cases member
  | cons x rest ih =>
    rw [modifyFirst] at member
    split at member
    · rename_i passes
      rcases List.mem_cons.1 member with same | later
      · exact .inr ⟨x, List.find?_cons_of_pos passes, same⟩
      · exact .inl (List.mem_cons_of_mem _ later)
    · rename_i fails
      rw [List.find?_cons_of_neg fails]
      rcases List.mem_cons.1 member with same | later
      · exact .inl (List.mem_cons.2 (.inl same))
      · exact (ih later).imp_left (List.mem_cons_of_mem _)

/-- An element stays, unless it is the first one that passes the test and is changed. -/
theorem modifyFirst_of_mem {test : α → Bool} {change : α → α} {x : α} {list : List α}
    (member : x ∈ list) : x ∈ modifyFirst test change list ∨
      list.find? test = some x ∧ change x ∈ modifyFirst test change list := by
  induction list with
  | nil => cases member
  | cons y rest ih =>
    rw [modifyFirst]
    by_cases passes : test y = true
    · rw [if_pos passes, List.find?_cons_of_pos passes]
      rcases List.mem_cons.1 member with rfl | later
      · exact .inr ⟨rfl, List.mem_cons_self ..⟩
      · exact .inl (List.mem_cons_of_mem _ later)
    · rw [if_neg passes, List.find?_cons_of_neg passes]
      rcases List.mem_cons.1 member with rfl | later
      · exact .inl (List.mem_cons_self ..)
      · rcases ih later with same | ⟨found, changed⟩
        · exact .inl (List.mem_cons_of_mem _ same)
        · exact .inr ⟨found, List.mem_cons_of_mem _ changed⟩

theorem find?_modifyFirst {test : α → Bool} {change : α → α}
    (keeps : ∀ x, test x = true → test (change x) = true) (list : List α) :
    (modifyFirst test change list).find? test = (list.find? test).map change := by
  induction list with
  | nil => rfl
  | cons x rest ih =>
    rw [modifyFirst]
    split
    · rename_i passes
      rw [List.find?_cons_of_pos (keeps x passes), List.find?_cons_of_pos passes, Option.map_some]
    · rename_i fails
      rw [List.find?_cons_of_neg fails, List.find?_cons_of_neg fails, ih]

/-- A change that does not show in a view of some elements leaves that view as it was. -/
theorem map_filter_modifyFirst {β : Type} {test keep : α → Bool} {change : α → α} {view : α → β}
    {list : List α} (same : ∀ x, list.find? test = some x →
      keep (change x) = keep x ∧ view (change x) = view x) :
    ((modifyFirst test change list).filter keep).map view = (list.filter keep).map view := by
  induction list with
  | nil => rfl
  | cons x rest ih =>
    rw [modifyFirst]
    split
    · rename_i passes
      obtain ⟨kept, viewed⟩ := same x (List.find?_cons_of_pos passes)
      rw [List.filter_cons, List.filter_cons, kept]
      split
      · rw [List.map_cons, List.map_cons, viewed]
      · rfl
    · rename_i fails
      rw [List.find?_cons_of_neg fails] at same
      rw [List.filter_cons, List.filter_cons]
      split
      · rw [List.map_cons, List.map_cons, ih same]
      · exact ih same

theorem perm_cons_eraseP {test : α → Bool} {x : α} {list : List α}
    (found : list.find? test = some x) : list.Perm (x :: list.eraseP test) := by
  induction list with
  | nil => cases found
  | cons y rest ih =>
    by_cases passes : test y = true
    · rw [List.find?_cons_of_pos passes] at found
      cases found
      rw [List.eraseP_cons_of_pos passes]
    · rw [List.find?_cons_of_neg passes] at found
      rw [List.eraseP_cons_of_neg passes]
      exact ((ih found).cons y).trans (.swap ..)

/-- Taking out the first element that passes a test takes it out of a part of the list too, if the
element belongs to that part. -/
theorem filter_eraseP_of_found {test part : α → Bool} {list : List α}
    (inside : ∀ x, list.find? test = some x → part x = true) :
    (list.eraseP test).filter part = (list.filter part).eraseP test := by
  induction list with
  | nil => rfl
  | cons x rest ih =>
    by_cases passes : test x = true
    · have belongs := inside x (List.find?_cons_of_pos passes)
      rw [List.eraseP_cons_of_pos passes, List.filter_cons_of_pos belongs,
        List.eraseP_cons_of_pos passes]
    · rw [List.find?_cons_of_neg passes] at inside
      rw [List.eraseP_cons_of_neg passes, List.filter_cons, List.filter_cons, ih inside]
      split
      · rw [List.eraseP_cons_of_neg passes]
      · rfl

theorem filter_eraseP_of_outside {test part : α → Bool} {list : List α}
    (outside : ∀ x, list.find? test = some x → part x = false) :
    (list.eraseP test).filter part = list.filter part := by
  induction list with
  | nil => rfl
  | cons x rest ih =>
    by_cases passes : test x = true
    · have lost := outside x (List.find?_cons_of_pos passes)
      rw [List.eraseP_cons_of_pos passes, List.filter_cons, lost]
      rfl
    · rw [List.find?_cons_of_neg passes] at outside
      rw [List.eraseP_cons_of_neg passes, List.filter_cons, List.filter_cons, ih outside]

theorem modifyFirst_modifyFirst {test : α → Bool} {first second : α → α}
    (keeps : ∀ x, test x = true → test (first x) = true) (list : List α) :
    modifyFirst test second (modifyFirst test first list) =
      modifyFirst test (fun x => second (first x)) list := by
  induction list with
  | nil => rfl
  | cons x rest ih =>
    rw [modifyFirst, modifyFirst]
    split
    · rename_i passes
      rw [modifyFirst, if_pos (keeps x passes)]
    · rename_i fails
      rw [modifyFirst, if_neg fails, ih]

theorem map_modifyFirst_of_found {β : Type} {test : α → Bool} {change : α → α} {view : α → β} {x : α}
    {list : List α} (found : list.find? test = some x) (same : view (change x) = view x) :
    (modifyFirst test change list).map view = list.map view := by
  induction list with
  | nil => rfl
  | cons y rest ih =>
    rw [modifyFirst]
    split
    · rename_i passes
      rw [List.find?_cons_of_pos passes] at found
      rw [List.map_cons, List.map_cons, Option.some.inj found, same]
    · rename_i fails
      rw [List.find?_cons_of_neg fails] at found
      rw [List.map_cons, List.map_cons, ih found]

theorem modifyFirst_eq_self {test : α → Bool} {change : α → α} {x : α} {list : List α}
    (found : list.find? test = some x) (same : change x = x) :
    modifyFirst test change list = list := by
  simpa using map_modifyFirst_of_found found (congrArg id same)

theorem eraseP_modifyFirst {test : α → Bool} {change : α → α}
    (keeps : ∀ x, test x = true → test (change x) = true) (list : List α) :
    (modifyFirst test change list).eraseP test = list.eraseP test := by
  induction list with
  | nil => rfl
  | cons x rest ih =>
    rw [modifyFirst]
    split
    · rename_i passes
      rw [List.eraseP_cons_of_pos (keeps x passes), List.eraseP_cons_of_pos passes]
    · rename_i fails
      rw [List.eraseP_cons_of_neg fails, List.eraseP_cons_of_neg fails, ih]

/-! ### Lists in which every key is there once -/

variable [DecidableEq κ] {key : α → κ}

theorem map_key_modifyFirst {k : κ} {change : α → α} (keeps : ∀ x, key x = k → key (change x) = k)
    (list : List α) : (modifyFirst (fun x => key x = k) change list).map key = list.map key := by
  apply map_modifyFirst
  intro x passes
  rw [decide_eq_true_eq] at passes
  exact (keeps x passes).trans passes.symm

theorem modifyFirst_eq_map_of_nodup {list : List α} (distinct : (list.map key).Nodup) (k : κ)
    (change : α → α) :
    modifyFirst (fun x => key x = k) change list =
      list.map fun x => if key x = k then change x else x := by
  induction list with
  | nil => rfl
  | cons x rest ih =>
    rw [List.map_cons, List.nodup_cons] at distinct
    rw [modifyFirst, List.map_cons]
    by_cases same : key x = k
    · rw [if_pos (by simpa using same), if_pos same]
      have others : ∀ y ∈ rest, (if key y = k then change y else y) = y := by
        intro y member
        refine if_neg fun equal => distinct.1 ?_
        exact List.mem_map.2 ⟨y, member, equal.trans same.symm⟩
      rw [List.map_congr_left others, List.map_id']
    · rw [if_neg (by simpa using same), if_neg same, ih distinct.2]

theorem eraseP_eq_filter_of_nodup {list : List α} (distinct : (list.map key).Nodup) (k : κ) :
    list.eraseP (fun x => key x = k) = list.filter fun x => key x ≠ k := by
  induction list with
  | nil => rfl
  | cons x rest ih =>
    rw [List.map_cons, List.nodup_cons] at distinct
    by_cases same : key x = k
    · rw [List.eraseP_cons_of_pos (by simpa using same),
        List.filter_cons_of_neg (by simpa using same), eq_comm, List.filter_eq_self]
      intro y member
      have different : key y ≠ k := fun equal =>
        distinct.1 (List.mem_map.2 ⟨y, member, equal.trans same.symm⟩)
      simpa using different
    · rw [List.eraseP_cons_of_neg (by simpa using same),
        List.filter_cons_of_pos (by simpa using same), ih distinct.2]

theorem mem_modifyFirst_of_ne {k : κ} {change : α → α} {x : α} {list : List α} (member : x ∈ list)
    (different : key x ≠ k) : x ∈ modifyFirst (fun x => key x = k) change list := by
  induction list with
  | nil => cases member
  | cons y rest ih =>
    rw [modifyFirst]
    split
    · rename_i here
      rcases List.mem_cons.1 member with rfl | later
      · exact absurd (by simpa using here) different
      · exact List.mem_cons_of_mem _ later
    · rcases List.mem_cons.1 member with rfl | later
      · exact List.mem_cons_self
      · exact List.mem_cons_of_mem _ (ih later)

theorem find?_eq_some_iff_of_nodup {list : List α} (distinct : (list.map key).Nodup) (k : κ)
    (x : α) : list.find? (fun x => key x = k) = some x ↔ x ∈ list ∧ key x = k := by
  constructor
  · intro found
    exact ⟨List.mem_of_find?_eq_some found, by simpa using List.find?_some found⟩
  · rintro ⟨member, rfl⟩
    induction list with
    | nil => cases member
    | cons y rest ih =>
      rw [List.map_cons, List.nodup_cons] at distinct
      rcases List.mem_cons.1 member with rfl | later
      · exact List.find?_cons_of_pos (by simp)
      · have different : key y ≠ key x := fun equal =>
          distinct.1 (List.mem_map.2 ⟨x, later, equal.symm⟩)
        rw [List.find?_cons_of_neg (by simpa using different)]
        exact ih distinct.2 later

theorem mem_modifyFirst_of_nodup {list : List α} (distinct : (list.map key).Nodup) {k : κ} {a : α}
    (found : list.find? (fun x => key x = k) = some a) {change : α → α} {x : α}
    (member : x ∈ modifyFirst (fun x => key x = k) change list) :
    (x ∈ list ∧ key x ≠ k) ∨ x = change a := by
  rw [modifyFirst_eq_map_of_nodup distinct] at member
  obtain ⟨y, present, rfl⟩ := List.mem_map.1 member
  split
  · rename_i equal
    rw [(find?_eq_some_iff_of_nodup distinct k y).2 ⟨present, equal⟩] at found
    exact .inr (congrArg change (Option.some.inj found))
  · rename_i different
    exact .inl ⟨present, different⟩

/-! ### Parts of a list -/

/-- Lists whose parts agree for every value of a key agree but for their order. -/
theorem perm_of_filter {f : α → κ} {first second : List α}
    (parts : ∀ k, (first.filter fun x => f x = k).Perm (second.filter fun x => f x = k)) :
    first.Perm second := by
  classical
  rw [List.perm_iff_count]
  intro x
  have same := (parts (f x)).count_eq x
  have passes : decide (f x = f x) = true := decide_eq_true rfl
  rwa [List.count_filter (p := fun y => f y = f x) passes,
    List.count_filter (p := fun y => f y = f x) passes] at same

end StatusEffects
