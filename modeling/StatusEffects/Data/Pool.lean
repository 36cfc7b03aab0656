/-!
Pools of values that are used again.

What is released is cleared before it waits in the pool, so a value taken from the pool is blank,
and so is a list.
-/

set_option autoImplicit false

namespace StatusEffects

/-- Values that can be used again. -/
class Poolable (α : Type) where
  /-- The value of something new. -/
  blank : α
  /-- Resets every part of a value. -/
  clear : α → α

/-- Values and lists that wait to be used again, the last released one first. -/
structure Pool (α : Type) where
  free : List α
  lists : List (List α)
deriving DecidableEq, Repr

namespace Pool

variable {α : Type}

def empty : Pool α := ⟨[], []⟩

instance : Inhabited (Pool α) := ⟨empty⟩

def size (p : Pool α) : Nat := p.free.length

def isEmpty (p : Pool α) : Bool := p.free.isEmpty

def acquireList (p : Pool α) : List α × Pool α :=
  match p.lists with
  | [] => ([], p)
  | list :: rest => (list, { p with lists := rest })

variable [Poolable α]

/-- Takes a value, or makes one if none waits. -/
def acquire (p : Pool α) : α × Pool α :=
  match p.free with
  | [] => (Poolable.blank, p)
  | value :: rest => (value, { p with free := rest })

def release (p : Pool α) (value : α) : Pool α :=
  { p with free := Poolable.clear value :: p.free }

/-- Releases the values of a list in order, then lets the emptied list wait. -/
def releaseList (p : Pool α) (list : List α) : Pool α :=
  let p := list.foldl release p
  { p with lists := [] :: p.lists }

/-! ### Pools of cleared values -/

structure Blank (p : Pool α) : Prop where
  values : ∀ value ∈ p.free, value = Poolable.blank
  lists : ∀ list ∈ p.lists, list = []

variable {p : Pool α}

theorem Blank.empty : (empty : Pool α).Blank :=
  ⟨fun _ member => (List.not_mem_nil member).elim, fun _ member => (List.not_mem_nil member).elim⟩

theorem Blank.acquire_fst (blank : p.Blank) : p.acquire.1 = Poolable.blank := by
  unfold acquire
  split
  · rfl
  · rename_i value rest free
    exact blank.values value (by rw [free]; exact List.mem_cons_self ..)

theorem Blank.acquire_snd (blank : p.Blank) : p.acquire.2.Blank := by
  unfold acquire
  split
  · exact blank
  · rename_i value rest free
    exact ⟨fun other member => blank.values other (by rw [free]; exact .tail _ member),
      blank.lists⟩

theorem Blank.acquireList_fst (blank : p.Blank) : p.acquireList.1 = [] := by
  unfold acquireList
  split
  · rfl
  · rename_i list rest lists
    exact blank.lists list (by rw [lists]; exact List.mem_cons_self ..)

theorem Blank.acquireList_snd (blank : p.Blank) : p.acquireList.2.Blank := by
  unfold acquireList
  split
  · exact blank
  · rename_i list rest lists
    exact ⟨blank.values, fun other member => blank.lists other (by rw [lists]; exact .tail _ member)⟩

theorem Blank.release (blank : p.Blank) {value : α}
    (clears : Poolable.clear value = Poolable.blank) : (p.release value).Blank := by
  refine ⟨fun other member => ?_, blank.lists⟩
  rcases List.mem_cons.1 member with rfl | earlier
  · exact clears
  · exact blank.values other earlier

theorem Blank.releaseList (blank : p.Blank)
    (clears : ∀ value : α, Poolable.clear value = Poolable.blank) (list : List α) :
    (p.releaseList list).Blank := by
  have released : (list.foldl Pool.release p).Blank := by
    induction list generalizing p with
    | nil => exact blank
    | cons value rest ih => exact ih (blank.release (clears value))
  refine ⟨released.values, fun other member => ?_⟩
  rcases List.mem_cons.1 member with rfl | earlier
  · rfl
  · exact released.lists other earlier

end Pool

end StatusEffects
