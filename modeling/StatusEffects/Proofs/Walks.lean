import StatusEffects.Proofs.Clock
import StatusEffects.Proofs.Subscriptions

/-!
Every owner that waits for time is told of it once a call.

The engine goes through the owners by index. The clock can follow it because the list of owners just
grows while a walk is open, because owners that wait have a tree to tell, and because an owner that
left never comes back: its number is not given out again.
-/

set_option autoImplicit false

namespace StatusEffects

variable {π : Type}

/-! ### Owners that left -/

namespace Entity

variable {e e' e₁ e₂ e₃ : Entity π} {owner : Owner}

/-- The number of an owner was given out, but nothing bears a tree for it. -/
structure Gone (e : Entity π) (owner : Owner) : Prop where
  given : owner.handle < e.nextHandle
  absent : e.condition owner = .absent

/-- The list of owners that wait just grows while a walk is open, and walks that begin also end. -/
structure Onward (e e' : Entity π) : Prop where
  walks : e'.timers.walks = e.timers.walks
  owners : 0 < e.timers.walks → e.timers.owners <+: e'.timers.owners

structure Later (e e' : Entity π) : Prop where
  handles : e.nextHandle ≤ e'.nextHandle
  gone : ∀ owner, e.Gone owner → e'.condition owner = .absent

theorem Gone.later (gone : e.Gone owner) (later : e.Later e') : e'.Gone owner :=
  ⟨Nat.lt_of_lt_of_le gone.given later.handles, later.gone owner gone⟩

theorem Later.refl (e : Entity π) : e.Later e := ⟨Nat.le_refl _, fun _ gone => gone.absent⟩

theorem Later.trans (first : e₁.Later e₂) (second : e₂.Later e₃) : e₁.Later e₃ :=
  ⟨Nat.le_trans first.handles second.handles, fun owner gone =>
    second.gone owner (gone.later first)⟩

theorem Onward.refl (e : Entity π) : e.Onward e := ⟨rfl, fun _ => List.prefix_rfl⟩

theorem Onward.trans (first : e₁.Onward e₂) (second : e₂.Onward e₃) : e₁.Onward e₃ := by
  refine ⟨second.walks.trans first.walks, fun walking => ?_⟩
  refine (first.owners walking).trans (second.owners ?_)
  rw [first.walks]
  exact walking

/-- A walk within another one leaves the list as it is when it ends. -/
theorem Onward.walk (within : Onward { e with timers := e.timers.startWalk } e') :
    Onward e { e' with timers := e'.timers.endWalk } := by
  have opened : e'.timers.walks = e.timers.walks + 1 := within.walks
  refine ⟨?_, fun walking => ?_⟩
  · change e'.timers.endWalk.walks = _
    rw [Timers.walks_endWalk, opened, Nat.add_sub_cancel]
  · change _ <+: e'.timers.endWalk.owners
    unfold Timers.endWalk
    rw [if_neg (by omega)]
    exact within.owners (Nat.succ_pos _)

theorem Books.onward {gone : Owner → Prop} (books : e.Books gone e') : e.Onward e' := by
  induction books with
  | refl => exact .refl e
  | aside before timers _ ih =>
      refine ih.trans ⟨congrArg Timers.walks timers, fun _ => ?_⟩
      rw [timers]
  | @subscribe e₁ before owner interests ih =>
      refine ih.trans ⟨?_, fun _ => ?_⟩
      · unfold Entity.subscribe
        dsimp only
        split
        · rfl
        · rfl
      · unfold Entity.subscribe Timers.insert
        dsimp only
        split
        · dsimp only
          split
          · exact List.prefix_rfl
          · exact List.prefix_append _ _
        · exact List.prefix_rfl
  | @unsubscribe e₁ owner before left ih =>
      refine ih.trans ⟨?_, fun walking => ?_⟩
      · change (e₁.timers.remove owner).walks = _
        unfold Timers.remove
        split
        · split
          · rfl
          · rfl
        · rfl
      · change _ <+: (e₁.timers.remove owner).owners
        unfold Timers.remove
        rw [if_pos walking]
        split
        · exact List.prefix_rfl
        · exact List.prefix_rfl

theorem Books.leaving {gone : Owner → Prop} (books : e.Books gone e')
    (leaves : owner ∈ e'.timers.leaving) : owner ∈ e.timers.leaving ∨ gone owner := by
  induction books with
  | refl => exact .inl leaves
  | aside before timers _ ih =>
      rw [timers] at leaves
      exact ih leaves
  | subscribe before other interests ih =>
      unfold Entity.subscribe Timers.insert at leaves
      dsimp only at leaves
      split at leaves
      · exact ih (List.mem_filter.1 leaves).1
      · exact ih leaves
  | @unsubscribe e₁ other before left ih =>
      change owner ∈ (e₁.timers.remove other).leaving at leaves
      unfold Timers.remove at leaves
      split at leaves
      · split at leaves
        · rcases List.mem_append.1 leaves with earlier | last
          · exact ih earlier
          · rw [List.mem_singleton.1 last]
            exact .inr left
        · exact ih leaves
      · exact ih leaves

variable [CustomTrigger π] {rules : Rulebook π} {stats : List StatName} {effects : List EffectName}

/-- Trees that come have new numbers. -/
theorem Move.later (move : e.Move rules stats effects e') (tidy : e.Tidy) : e.Later e' := by
  have same {e' : Entity π} (handles : e'.nextHandle = e.nextHandle)
      (trees : ∀ owner, e'.condition owner = e.condition owner) : e.Later e' :=
    ⟨Nat.le_of_eq handles.symm, fun owner gone => (trees owner).trans gone.absent⟩
  have fewer {gone : Owner → Prop} [DecidablePred gone] {e' : Entity π}
      (handles : e'.nextHandle = e.nextHandle) (trees : ∀ owner, e'.condition owner =
        if gone owner then .absent else e.condition owner) : e.Later e' := by
    refine ⟨Nat.le_of_eq handles.symm, fun owner before => (trees owner).trans ?_⟩
    split
    · rfl
    · exact before.absent
  cases move with
  | takeHandle => exact ⟨Nat.le_succ _, fun owner gone => gone.absent⟩
  | @addModifier m new =>
      refine ⟨Nat.le_succ _, fun owner gone => ?_⟩
      rw [tidy.condition_addModifier rules.operators new, if_neg, gone.absent]
      rintro rfl
      exact Nat.ne_of_lt gone.given new
  | updateModifier found owed => exact same rfl (condition_updateModifier found rfl)
  | dropModifier dropped =>
      refine fewer ?_ (tidy.condition_dropModifier? dropped)
      obtain ⟨_, -, rfl⟩ := Option.map_eq_some_iff.1 dropped
      rfl
  | @dropModifiersOf source _ owed =>
      exact fewer (dropModifiersOf_nextHandle e source) (tidy.condition_dropModifiersOf source)
  | @pushStack effect s live new =>
      refine ⟨Nat.le_succ _, fun owner gone => ?_⟩
      rw [tidy.condition_pushStack live new, if_neg, gone.absent]
      rintro rfl
      exact Nat.ne_of_lt gone.given new
  | updateStack found value => exact same rfl (condition_updateStack found rfl)
  | stimulate owner stimulus r there =>
      obtain ⟨-, -, handles⟩ := e.setCondition_rest owner
        (Engine.Stimulus.apply stimulus r (e.condition owner)).1
      refine ⟨Nat.le_of_eq handles.symm, fun other gone => ?_⟩
      rw [tidy.condition_setCondition there, if_neg, gone.absent]
      rintro rfl
      exact there gone.absent
  | @mergeDuration owner stacking r incoming c there merged =>
      obtain ⟨-, -, handles⟩ := e.setCondition_rest owner c
      refine ⟨Nat.le_of_eq handles.symm, fun other gone => ?_⟩
      have trees : ((e.setCondition owner c).subscribe owner
          ((e.setCondition owner c).condition owner).interests).condition other =
            (e.setCondition owner c).condition other := condition_of_same rfl rfl other
      rw [trees, tidy.condition_setCondition there, if_neg, gone.absent]
      rintro rfl
      exact there gone.absent
  | detachStack detached =>
      refine fewer ?_ (tidy.condition_detachStack? detached)
      obtain ⟨live, s, -, -, rfl⟩ := detachStack?_eq_some detached
      rfl
  | setStacks found drawn => exact same rfl (condition_setStacks found drawn)
  | storeCount found count active owed => exact same rfl (condition_storeCount _ count active)
  | @addEffect name d registered absent r =>
      obtain ⟨-, others⟩ := tidy.condition_addEffect absent
        (d.customEffects.map fun custom => custom.condition.pristine.arm r)
      refine ⟨?_, fun owner gone => ?_⟩
      · rw [addEffect_nextHandle]
        exact Nat.le_succ _
      · refine (others owner fun index same => ?_).trans gone.absent
        have given := gone.given
        rw [same] at given
        exact Nat.lt_irrefl _ given
  | @dropEffect effect live _ found owed =>
      exact fewer (dropEffect_nextHandle e effect live) (tidy.condition_dropEffect found)
  | _ => exact same rfl fun _ => rfl

/-- Who hears of what is in step with the trees, and owners that leave during a walk are gone. -/
structure Punctual (e : Entity π) : Prop where
  attended : e.Attended
  departed : ∀ owner ∈ e.timers.leaving, e.Gone owner

structure Ages (e e' : Entity π) : Prop where
  punctual : e'.Punctual
  later : e.Later e'
  onward : e.Onward e'

theorem Ages.refl (punctual : e.Punctual) : e.Ages e := ⟨punctual, .refl e, .refl e⟩

theorem Ages.trans (first : e₁.Ages e₂) (second : e₂.Ages e₃) : e₁.Ages e₃ :=
  ⟨second.punctual, first.later.trans second.later, first.onward.trans second.onward⟩

theorem Move.ages (move : e.Move rules stats effects e') (punctual : e.Punctual) : e.Ages e' := by
  have tidy := punctual.attended.tidy
  have later := move.later tidy
  obtain ⟨gone, books, left⟩ := move.books tidy
  refine ⟨⟨move.attended punctual.attended, fun owner leaves => ?_⟩, later, books.onward⟩
  rcases books.leaving leaves with before | went
  · exact (punctual.departed owner before).later later
  · obtain ⟨given, absent⟩ := left owner went
    exact ⟨Nat.lt_of_lt_of_le given later.handles, absent⟩

theorem Moves.ages (moves : e.Moves rules stats e') (punctual : e.Punctual) : e.Ages e' := by
  induction moves with
  | refl => exact .refl punctual
  | step before move listed ih => exact ih.trans (move.ages ih.punctual)

/-- Whoever waits has a tree to tell. -/
theorem Punctual.there (punctual : e.Punctual) (waits : e.timers.contains owner = true) :
    e.condition owner ≠ .absent :=
  punctual.attended.borne owner .time waits

/-- Whoever waits at some later time and was on the list before waited then. -/
theorem Ages.waited (ages : e.Ages e') (punctual : e.Punctual) (listed : owner ∈ e.timers.owners)
    (waits : e'.timers.contains owner = true) : e.timers.contains owner = true := by
  refine Timers.contains_iff.2 ⟨listed, fun leaves => ?_⟩
  exact ages.punctual.there waits (ages.later.gone owner (punctual.departed owner leaves))

/-- The list of owners that wait may change its bookkeeping when a walk begins or ends. -/
theorem Punctual.walk (punctual : e.Punctual) {timers : Timers} (tidy : timers.Tidy)
    (same : ∀ owner, timers.contains owner = true ↔ e.timers.contains owner = true)
    (fewer : ∀ owner ∈ timers.leaving, owner ∈ e.timers.leaving) :
    Punctual { e with timers := timers } ∧ e.Later { e with timers := timers } := by
  have trees (owner : Owner) : Entity.condition { e with timers := timers } owner =
      e.condition owner := condition_of_same rfl rfl owner
  have later : e.Later { e with timers := timers } :=
    ⟨Nat.le_refl _, fun owner gone => (trees owner).trans gone.absent⟩
  refine ⟨⟨punctual.attended.walk tidy same, fun owner leaves => ?_⟩, later⟩
  exact (punctual.departed owner (fewer owner leaves)).later later

theorem Punctual.startWalk (punctual : e.Punctual) :
    Punctual { e with timers := e.timers.startWalk } ∧
      e.Later { e with timers := e.timers.startWalk } :=
  punctual.walk punctual.attended.booked.timers.startWalk (fun _ => Iff.rfl) fun _ => id

end Entity

/-! ### Steps that the clock can follow -/

variable [CustomTrigger π] {rules : Rulebook π}

/-- The clock can follow a step, and at its end the same walks are open. -/
def Timely (w w' : World π) : Prop :=
  w.entity.Punctual → w.entity.Ages w'.entity ∧
    ∃ happened, w'.trace.reverse = w.trace.reverse ++ happened ∧
      ∀ walks, Clock.Runs ⟨walks, none⟩ happened ⟨walks, none⟩

theorem Timely.steady : Act.Steady (Timely (π := π)) where
  refl w punctual := ⟨.refl punctual, [], (List.append_nil _).symm, fun _ => .done _⟩
  trans first second punctual := by
    obtain ⟨ages, before, grown, runs⟩ := first punctual
    obtain ⟨ages', after, grown', runs'⟩ := second ages.punctual
    refine ⟨ages.trans ages', before ++ after, ?_, fun walks => (runs walks).append (runs' walks)⟩
    rw [grown', grown, List.append_assoc]

/-- A change of the entity with occurrences that are not about time. -/
theorem Timely.of_ages {w : World π} {e : Entity π} {asides : List (Occurrence π)}
    (ages : w.entity.Punctual → w.entity.Ages e) (aside : ∀ o ∈ asides, o.isOfTime = false) :
    Timely w { w with entity := e, trace := asides ++ w.trace } := by
  refine fun punctual => ⟨ages punctual, asides.reverse, List.reverse_append, fun walks => ?_⟩
  exact .asides fun o member => aside o (List.mem_reverse.1 member)

theorem Timely.mark (w : World π) {o : Occurrence π} (aside : o.isOfTime = false) :
    Timely w { w with trace := o :: w.trace } := by
  have only : ∀ other ∈ [o], other.isOfTime = false := List.forall_mem_singleton.2 aside
  exact .of_ages .refl only

namespace Engine

open Act

variable {nested : Nested π}

end Engine

end StatusEffects
