import StatusEffects.Proofs.CallStages

/-!
Relations that do not ask why something goes.

Many a relation between worlds holds across every move together with its notices, whoever makes it. It
is kept by every call and every restoring, with any hooks and at every number of levels. How time
passes is left to the relation.
-/

set_option autoImplicit false

namespace StatusEffects

variable {π : Type} [CustomTrigger π]

namespace Engine

open Act

/-- A relation that holds across moves with their notices, and across the passing of time if it
holds across reactions. -/
structure Admits (rules : Rulebook π) (R : World π → World π → Prop) : Prop where
  steady : Steady R
  ignored : Ignored R
  told : ∀ {w w' : World π} {stats : List StatName} {e : Entity π} {asides : List (Occurrence π)},
    w.entity.Moves rules stats e → Asides asides →
      Told R stats { w with entity := e, trace := asides ++ w.trace } w' → R w w'
  flipped : ∀ {w w' : World π} {effect : EffectName} {e : Entity π} {asides : List (Occurrence π)},
    w.entity.Move rules [] [effect] e → Asides asides →
      R { w with entity := e, trace := asides ++ w.trace } w' →
      R w { w' with trace := .effectChanged effect w'.entity :: w'.trace }
  running : ∀ w hooks, R w { w with running := hooks }
  called : ∀ {hook script}, rules.Starts hook script → ∀ (c : Call π) (reply : c.Reply),
    (record (.called c reply)).Keeps R
  passes : ∀ {nested : Nested π}, (∀ r, (nested r).Keeps (r.Served rules R)) →
    (∀ owner, (react nested rules owner).Keeps R) → ∀ delta,
      (passTime nested rules delta).Keeps R

variable {rules : Rulebook π} {R : World π → World π → Prop}

namespace Admits

variable (admits : Admits rules R)

include admits

/-- Moves that concern no stat, with occurrences on the side. -/
theorem moved {w : World π} {e : Entity π} {asides : List (Occurrence π)}
    (moves : w.entity.Moves rules [] e) (aside : Asides asides) :
    R w { w with entity := e, trace := asides ++ w.trace } :=
  admits.told moves aside rfl

theorem begins (w : World π) (hook : Hook) : R w (w.begin hook) :=
  admits.steady.trans (admits.running w (hook :: w.running))
    (admits.ignored _ (.hookStarted hook) _ () _ rfl)

/-- A relation that admits every move follows all calls. -/
theorem follows : Follows rules (fun _ => True) R fun _ => R where
  steady := admits.steady
  loose _ := admits.steady
  loosen := id
  tighten {effect _ w'} before :=
    admits.steady.trans before (admits.ignored _ (.stacksChanged effect) w' () _ rfl)
  told moves _ idle told := admits.told moves idle.asides told
  restacked moves _ idle := admits.moved moves idle.asides
  flipped {_ _ effect _ count active _} found _ idle ran :=
    admits.flipped (.storeCount found count active fun _ => List.mem_singleton_self effect) idle.asides
      (ran.steady admits.steady admits.begins)
  dropped found _ inactive := by
    refine admits.moved (Entity.Move.dropEffect found fun active => ?_).moves (.cons rfl .nil)
    rw [inactive] at active
    cases active
  ended {_ _ _ effect _} found _ _ removed ran :=
    admits.flipped (.dropEffect found fun _ => List.mem_singleton_self effect) (.cons rfl .nil)
      (admits.steady.trans removed (ran.steady admits.steady admits.begins))
  started _ _ w := admits.begins w _
  running := admits.running
  called starts c _ _ reply w := admits.called starts c reply w () _ rfl
  uncalled _ _ _ _ _ _ other := absurd trivial other
  passes := admits.passes

theorem react {nested : Nested π} (serves : ∀ r, (nested r).Keeps (r.Served rules R)) (owner : Owner) :
    (Engine.react nested rules owner).Keeps R :=
  react_follows admits.follows serves owner

theorem serve (levels : Nat) (r : Request π) :
    (Engine.serve rules levels r).Keeps (r.Served rules R) :=
  serve_follows admits.follows levels r

theorem perform (levels : Nat) (c : Call π) : (Engine.perform rules levels c).Keeps R :=
  perform_follows admits.follows levels c trivial

theorem addParts (levels : Nat) (snapshot : Snapshot) :
    Act.Keeps R (snapshot.addParts rules levels).run :=
  addParts_follows admits.follows levels snapshot

end Admits

/-- A walk goes from the world in which it is open to the world in which it ends. -/
theorem passTime_spans {nested : Nested π} {delta : Float32} (steady : Steady R) (timeless : Timeless R)
    (ticks : ∀ owner, (stimulate rules owner (.time delta)).Keeps R)
    (reacts : ∀ owner, (react nested rules owner).Keeps R) (w : World π) :
    (passTime nested rules delta).Yields w fun _ w' => ∃ w₁,
      R { w with
        entity := { w.entity with timers := w.entity.timers.startWalk }
        trace := .walkStarted delta w.entity :: w.trace } w₁ ∧
      w' = { w₁ with
        entity := { w₁.entity with timers := w₁.entity.timers.endWalk }
        trace := .walkEnded { w₁.entity with timers := w₁.entity.timers.endWalk } :: w₁.trace } := by
  rw [passTime]
  simp only [yields_bind, yields_record, yields_entity, yields_modifyEntity]
  have turns := takeTurn_keeps steady timeless fun owner =>
    expose_keeps steady (ticks owner) (reacts owner)
  exact (steady.forM _ (fun index _ => turns index) _).mono fun _ w₁ within => ⟨w₁, within, rfl⟩

/-- A relation between entities that holds across moves, and across a walk if it holds within it. -/
theorem Admits.of_entity {S : Entity π → Entity π → Prop} (refl : ∀ e, S e e)
    (trans : ∀ {e₁ e₂ e₃}, S e₁ e₂ → S e₂ e₃ → S e₁ e₃)
    (moved : ∀ {stats effects e e'}, e.Move rules stats effects e' → S e e')
    (walked : ∀ {e e'}, S { e with timers := e.timers.startWalk } e' →
      S e { e' with timers := e'.timers.endWalk }) :
    Admits rules fun w w' => S w.entity w'.entity := by
  have steady : Steady fun w w' : World π => S w.entity w'.entity :=
    ⟨fun w => refl w.entity, fun first second => trans first second⟩
  have records (mark : Entity π → Occurrence π) :
      (Act.record mark).Keeps fun w w' => S w.entity w'.entity := by
    intro w
    rw [yields_record]
    exact refl w.entity
  have chain {stats : List StatName} {e e' : Entity π} (moves : e.Moves rules stats e') :
      S e e' := by
    induction moves with
    | refl => exact refl e
    | step before move listed ih => exact trans ih (moved move)
  have announced {stats : List StatName} {w w' : World π}
      (told : Told (fun w w' : World π => S w.entity w'.entity) stats w w') :
      S w.entity w'.entity := by
    induction stats generalizing w with
    | nil =>
        rw [told]
        exact refl w.entity
    | cons stat rest ih =>
        obtain ⟨w₁, first, later⟩ := told
        exact trans first (ih later)
  refine ⟨steady, fun mark _ => records mark, fun moves _ told => ?_, fun move _ after => ?_,
    fun w _ => refl w.entity, fun _ _ _ => records _, fun {nested} serves reacts delta w => ?_⟩
  · exact trans (chain moves) (announced told)
  · exact trans (moved move) after
  · refine (passTime_spans steady (fun mark _ => records mark) (fun owner w => ?_) reacts w).mono
      fun _ w' spans => ?_
    · refine (stimulate_stores owner _ w).mono fun changed w' stored => ?_
      rcases stored with ⟨-, -, rfl⟩ | ⟨there, r, e, rfl, rfl⟩
      · exact refl w'.entity
      · exact moved (.stimulate owner (.time delta) r there)
    · obtain ⟨w₁, within, rfl⟩ := spans
      exact walked within

end Engine

/-- What the start of a run has and every admitted step keeps, every world between calls has. -/
theorem Reached.of_admits {rules : Rulebook π} {R : World π → World π → Prop}
    (admits : Engine.Admits rules R) {test : World π → Prop}
    (keeps : ∀ w w', R w w' → test w → test w')
    (start : ∀ values, test (.ofEntity { Entity.new with values := values }))
    {snapshots : Snapshot → Prop} {calls : Entity π → Call π → Prop} {w : World π}
    (reached : Reached rules snapshots calls w) : test w :=
  reached.of_follows admits.follows keeps start fun _ _ _ => trivial

end StatusEffects
