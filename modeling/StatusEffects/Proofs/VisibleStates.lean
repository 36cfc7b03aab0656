import StatusEffects.Proofs.Admission

/-!
The entities of a run, one after the other.

Somebody sees an entity between two calls, when a listener is called, when a hook starts and when a
call by a hook comes back. A relation between entities that holds across moves and across the
bookkeeping of walks holds from each of those to each later one. In the middle of a move, and while
the rules are asked for values, nobody can make a call, so those moments are left out.
-/

set_option autoImplicit false

namespace StatusEffects

variable {π : Type}

/-- The entity that listeners or hooks are shown. -/
def Occurrence.shown? : Occurrence π → Option (Entity π)
  | .statChanged _ seen | .effectChanged _ seen | .stacksChanged _ seen | .hookStarted _ seen
  | .called _ _ seen => some seen
  | _ => none

theorem Occurrence.seen_of_shown {o : Occurrence π} {seen : Entity π} (shown : o.shown? = some seen) :
    o.seen? = some seen := by
  cases o <;> first | exact shown | cases shown

theorem Occurrence.shown_of_isAside {o : Occurrence π} (aside : o.isAside = true) :
    o.shown? = none := by
  cases o <;> first | rfl | cases aside

/-- A relation holds between the entities of two worlds and all that were shown on the way from the
one to the other, each with every later one. -/
def Shows (S : Entity π → Entity π → Prop) (w w' : World π) : Prop :=
  ∃ recent, w'.trace = recent ++ w.trace ∧
    (w'.entity :: recent.filterMap Occurrence.shown? ++ [w.entity]).Pairwise
      fun later earlier => S earlier later

namespace Shows

variable {S : Entity π → Entity π → Prop} {w : World π}

theorem marked (refl : ∀ e, S e e) {o : Occurrence π}
    (shown : ∀ seen, o.shown? = some seen → seen = w.entity) :
    Shows S w { w with trace := o :: w.trace } := by
  refine ⟨[o], rfl, ?_⟩
  cases only : o.shown? with
  | none => simpa [only] using refl w.entity
  | some seen =>
      rw [shown seen only] at only
      simpa [only] using refl w.entity

theorem unseen {e : Entity π} (step : S w.entity e) (recent : List (Occurrence π))
    (hidden : ∀ o ∈ recent, o.shown? = none) :
    Shows S w { w with entity := e, trace := recent ++ w.trace } := by
  refine ⟨recent, rfl, ?_⟩
  rw [List.filterMap_eq_nil_iff.2 hidden]
  exact List.pairwise_pair.2 step

theorem steady (refl : ∀ e, S e e) (trans : ∀ {e₁ e₂ e₃}, S e₁ e₂ → S e₂ e₃ → S e₁ e₃) :
    Act.Steady (Shows S) where
  refl w := unseen (refl w.entity) [] (List.forall_mem_nil _)
  trans first second := by
    obtain ⟨before, grown, shown⟩ := first
    obtain ⟨after, grown', shown'⟩ := second
    refine ⟨after ++ before, by rw [grown', grown, List.append_assoc], ?_⟩
    obtain ⟨passed, -, last⟩ := List.pairwise_append.1 shown'
    obtain ⟨middle, rest⟩ := List.pairwise_cons.1 shown
    rw [List.filterMap_append, ← List.cons_append, List.append_assoc, List.pairwise_append]
    refine ⟨passed, rest, fun later listed earlier listed' => ?_⟩
    exact trans (middle earlier listed') (last later listed _ (List.mem_singleton_self _))

end Shows

variable [CustomTrigger π] {rules : Rulebook π} {S : Entity π → Entity π → Prop}

open Act in
/-- A relation between entities that holds across moves, and when a walk begins or ends, holds
between all that are shown. -/
theorem Engine.Admits.of_shown (refl : ∀ e, S e e)
    (trans : ∀ {e₁ e₂ e₃}, S e₁ e₂ → S e₂ e₃ → S e₁ e₃)
    (moved : ∀ {stats effects e e'}, e.Move rules stats effects e' → S e e')
    (starts : ∀ e, S e { e with timers := e.timers.startWalk })
    (ends : ∀ e, S e { e with timers := e.timers.endWalk }) : Admits rules (Shows S) := by
  have steady := Shows.steady refl trans
  have marks {mark : Entity π → Occurrence π}
      (own : ∀ e seen, (mark e).seen? = some seen → seen = e) : (record mark).Keeps (Shows S) := by
    intro w
    rw [yields_record]
    exact .marked refl fun seen shown => own _ _ (Occurrence.seen_of_shown shown)
  have timeless : Timeless (Shows S) := fun mark time => marks fun e => (time e).2
  have chain {stats : List StatName} {e e' : Entity π} (moves : e.Moves rules stats e') :
      S e e' := by
    induction moves with
    | refl => exact refl e
    | step before move listed ih => exact trans ih (moved move)
  have hidden {asides : List (Occurrence π)} (aside : Asides asides) :
      ∀ o ∈ asides, o.shown? = none :=
    fun o member => Occurrence.shown_of_isAside (aside o member)
  refine ⟨steady, fun mark plain => marks fun e => (plain e).2, fun moves aside told => ?_,
    fun move aside after => ?_, fun w hooks => ?_, fun _ c reply => marks fun e seen same => ?_,
    fun serves reacts delta w => ?_⟩
  · refine steady.trans (.unseen (chain moves) _ (hidden aside)) (told.steady steady fun w stat => ?_)
    exact .marked refl fun seen shown => (Option.some.inj shown).symm
  · refine steady.trans (steady.trans (.unseen (moved move) _ (hidden aside)) after) ?_
    exact .marked refl fun seen shown => (Option.some.inj shown).symm
  · exact ⟨[], rfl, List.pairwise_pair.2 (refl w.entity)⟩
  · exact (Option.some.inj same).symm
  · refine (passTime_spans steady timeless (fun owner w => ?_) reacts w).mono fun _ w' spans => ?_
    · refine (stimulate_stores owner _ w).mono fun changed w' stored => ?_
      rcases stored with ⟨-, -, rfl⟩ | ⟨there, r, e, rfl, rfl⟩
      · exact steady.refl w'
      · have move : w.entity.Move rules [] [] _ := .stimulate owner (.time delta) r there
        refine .unseen (moved move) [_, _] ?_
        exact List.forall_mem_cons.2 ⟨rfl, List.forall_mem_singleton.2 rfl⟩
    · obtain ⟨w₁, within, rfl⟩ := spans
      refine steady.trans ?_ (steady.trans within ?_)
      · exact .unseen (starts w.entity) [_] (List.forall_mem_singleton.2 rfl)
      · exact .unseen (ends w₁.entity) [_] (List.forall_mem_singleton.2 rfl)

/-- The entities of a run, the latest first: those between calls, and those that listeners and hooks
were shown in the meantime. -/
inductive Chronicle (rules : Rulebook π) (snapshots : Snapshot → Prop)
    (calls : Entity π → Call π → Prop) : List (Entity π) → World π → Prop where
  | new : Chronicle rules snapshots calls [.new] (.ofEntity .new)
  | restored {levels : Nat} {snapshot : Snapshot} {w : World π} (admitted : snapshots snapshot)
      (restores : snapshot.restore rules levels = .ok (.ok ()) w) :
      Chronicle rules snapshots calls
        (w.entity :: w.trace.filterMap Occurrence.shown? ++
          [{ Entity.new with values := snapshot.stats }]) w
  | called {levels : Nat} {w w' : World π} {c : Call π} {reply : c.Reply}
      {states : List (Entity π)} {recent : List (Occurrence π)}
      (before : Chronicle rules snapshots calls states w) (admitted : calls w.entity c)
      (returns : Engine.perform rules levels c w = .ok reply w')
      (grown : w'.trace = recent ++ w.trace) :
      Chronicle rules snapshots calls
        (w'.entity :: recent.filterMap Occurrence.shown? ++ states) w'

section

variable {snapshots : Snapshot → Prop} {calls : Entity π → Call π → Prop} {states : List (Entity π)}
  {w : World π}

theorem Chronicle.latest (chronicle : Chronicle rules snapshots calls states w) :
    ∃ earlier, states = w.entity :: earlier := by
  cases chronicle with
  | new => exact ⟨_, rfl⟩
  | restored admitted restores => exact ⟨_, rfl⟩
  | called before admitted returns grown => exact ⟨_, rfl⟩

/-- The chronicle goes on with every call that comes back. -/
theorem Chronicle.extend (chronicle : Chronicle rules snapshots calls states w) {levels : Nat}
    {c : Call π} {reply : c.Reply} {w' : World π} (admitted : calls w.entity c)
    (returns : Engine.perform rules levels c w = .ok reply w') :
    ∃ shown, Chronicle rules snapshots calls (w'.entity :: shown ++ states) w' := by
  have grows : Engine.Admits rules (Shows fun _ _ : Entity π => True) :=
    .of_shown (fun _ => trivial) (fun _ _ => trivial) (fun _ => trivial) (fun _ => trivial)
      fun _ => trivial
  obtain ⟨recent, grown, -⟩ := grows.perform _ _ _ _ _ returns
  exact ⟨_, .called chronicle admitted returns grown⟩

/-- Every run has a chronicle. -/
theorem Reached.chronicle (reached : Reached rules snapshots calls w) :
    ∃ states, Chronicle rules snapshots calls states w := by
  induction reached with
  | new => exact ⟨_, .new⟩
  | restored admitted restores => exact ⟨_, .restored admitted restores⟩
  | called before admitted returns ih =>
      obtain ⟨states, earlier⟩ := ih
      obtain ⟨shown, later⟩ := earlier.extend admitted returns
      exact ⟨_, later⟩

/-- A relation that holds between all that are shown during a call holds from each entity of a run to
each later one. -/
theorem Chronicle.pairwise (chronicle : Chronicle rules snapshots calls states w)
    (trans : ∀ {e₁ e₂ e₃}, S e₁ e₂ → S e₂ e₃ → S e₁ e₃) (admits : Engine.Admits rules (Shows S)) :
    states.Pairwise fun later earlier => S earlier later := by
  induction chronicle with
  | new => exact List.pairwise_singleton ..
  | @restored levels snapshot w admitted restores =>
      obtain ⟨recent, grown, shown⟩ := admits.addParts levels snapshot _ _ _ restores
      rw [grown]
      simpa [World.ofEntity] using shown
  | @called levels w w' c reply states recent before admitted returns grown ih =>
      obtain ⟨recent', grown', shown⟩ := admits.perform levels c _ _ _ returns
      rw [List.append_cancel_right (grown.symm.trans grown')]
      obtain ⟨earlier, rfl⟩ := before.latest
      obtain ⟨middle, -⟩ := List.pairwise_cons.1 ih
      obtain ⟨recently, -, last⟩ := List.pairwise_append.1 shown
      refine List.pairwise_append.2 ⟨recently, ih, fun e listed e' listed' => ?_⟩
      have near := last e listed _ (List.mem_singleton_self _)
      rcases List.mem_cons.1 listed' with rfl | before
      · exact near
      · exact trans (middle e' before) near

theorem Chronicle.earliest (chronicle : Chronicle rules snapshots calls states w) :
    ∃ later values, states = later ++ [{ Entity.new with values := values }] := by
  induction chronicle with
  | new => exact ⟨[], ∅, rfl⟩
  | restored admitted restores => exact ⟨_, _, rfl⟩
  | called before admitted returns grown ih =>
      obtain ⟨later, values, rfl⟩ := ih
      exact ⟨_, values, (List.append_assoc ..).symm⟩

end

end StatusEffects
