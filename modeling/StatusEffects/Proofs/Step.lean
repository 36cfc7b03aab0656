import StatusEffects.Entity.World

/-!
Reasoning about steps: what holds whenever a step comes back, and relations between the world before
and the world after that a step keeps.

Nothing is said there about a step that fails. A relation that is reflexive and transitive is kept
by a sequence of steps as soon as each of them keeps it. The last parts say of steps that they do
come back, or that they never do, which for many of them depends on the entity alone.
-/

set_option autoImplicit false

namespace StatusEffects.Act

variable {π α β : Type}

/-- Whenever a step comes back from a world, its result and the world it leaves pass a test. -/
def Yields (m : Act π α) (w : World π) (test : α → World π → Prop) : Prop :=
  ∀ a w', m w = .ok a w' → test a w'

theorem Yields.mono {m : Act π α} {w : World π} {test weaker : α → World π → Prop}
    (yields : m.Yields w test) (implies : ∀ a w', test a w' → weaker a w') :
    m.Yields w weaker :=
  fun a w' ends => implies a w' (yields a w' ends)

/-- A condition of the test may be assumed beforehand. -/
theorem Yields.given {m : Act π α} {w : World π} {condition : Prop} {test : α → World π → Prop}
    (yields : condition → m.Yields w test) :
    m.Yields w fun a w' => condition → test a w' :=
  fun a w' ends holds => yields holds a w' ends

/-! ### Primitive steps -/

theorem entity_bind (f : Entity π → Act π α) (w : World π) :
    (Act.entity >>= f) w = f w.entity w := rfl

theorem bind_run {m : Act π α} {f : α → Act π β} {a : α} {w w₁ : World π} (run : m w = .ok a w₁) :
    (m >>= f) w = f a w₁ := by
  change EStateM.bind m f w = _
  unfold EStateM.bind
  rw [run]

theorem bind_fails {m : Act π α} {f : α → Act π β} {fault : Fault} {w w₁ : World π}
    (run : m w = .error fault w₁) : (m >>= f) w = .error fault w₁ := by
  change EStateM.bind m f w = _
  unfold EStateM.bind
  rw [run]

theorem bind_congr_run {m n : Act π α} (f : α → Act π β) {w w₁ : World π} (run : m w = n w₁) :
    (m >>= f) w = (n >>= f) w₁ := by
  change EStateM.bind m f w = EStateM.bind n f w₁
  unfold EStateM.bind
  rw [run]

@[simp] theorem yields_pure (a : α) (w : World π) (test : α → World π → Prop) :
    Yields (pure a : Act π α) w test ↔ test a w := by
  constructor
  · intro yields
    exact yields a w rfl
  · intro holds a' w' ends
    cases ends
    exact holds

@[simp] theorem yields_throw (f : Fault) (w : World π) (test : α → World π → Prop) :
    Yields (throw f : Act π α) w test ↔ True := by
  constructor
  · intro _
    trivial
  · intro _ a w' ends
    cases ends

@[simp] theorem yields_bind (m : Act π α) (f : α → Act π β) (w : World π)
    (test : β → World π → Prop) :
    Yields (m >>= f) w test ↔ m.Yields w fun a w' => (f a).Yields w' test := by
  constructor
  · intro yields a w₁ first b w₂ second
    apply yields b w₂
    change EStateM.bind m f w = _
    unfold EStateM.bind
    rw [first]
    exact second
  · intro yields b w₂ ends
    change EStateM.bind m f w = _ at ends
    unfold EStateM.bind at ends
    split at ends
    · rename_i a w₁ first
      exact yields a w₁ first b w₂ ends
    · cases ends

@[simp] theorem yields_map (f : α → β) (m : Act π α) (w : World π) (test : β → World π → Prop) :
    Yields (f <$> m) w test ↔ m.Yields w fun a w' => test (f a) w' := by
  change Yields (m >>= fun a => pure (f a)) w test ↔ _
  simp only [yields_bind, yields_pure]

@[simp] theorem yields_entity (w : World π) (test : Entity π → World π → Prop) :
    (entity : Act π (Entity π)).Yields w test ↔ test w.entity w := by
  constructor
  · intro yields
    exact yields _ _ rfl
  · intro holds a w' ends
    cases ends
    exact holds

@[simp] theorem yields_get (w : World π) (test : World π → World π → Prop) :
    (get : Act π (World π)).Yields w test ↔ test w w := by
  constructor
  · intro yields
    exact yields _ _ rfl
  · intro holds a w' ends
    cases ends
    exact holds

@[simp] theorem yields_modify (change : World π → World π) (w : World π)
    (test : Unit → World π → Prop) :
    (modify change : Act π Unit).Yields w test ↔ test () (change w) := by
  constructor
  · intro yields
    exact yields _ _ rfl
  · intro holds a w' ends
    cases ends
    exact holds

@[simp] theorem yields_setEntity (e : Entity π) (w : World π) (test : Unit → World π → Prop) :
    (setEntity e).Yields w test ↔ test () { w with entity := e } :=
  yields_modify _ w test

@[simp] theorem yields_modifyEntity (change : Entity π → Entity π) (w : World π)
    (test : Unit → World π → Prop) :
    (modifyEntity change).Yields w test ↔ test () { w with entity := change w.entity } :=
  yields_modify _ w test

@[simp] theorem yields_updateEntity (change : Entity π → α × Entity π) (w : World π)
    (test : α → World π → Prop) :
    (updateEntity change).Yields w test ↔
      test (change w.entity).1 { w with entity := (change w.entity).2 } := by
  constructor
  · intro yields
    exact yields _ _ rfl
  · intro holds a w' ends
    cases ends
    exact holds

@[simp] theorem yields_record (occurrence : Entity π → Occurrence π) (w : World π)
    (test : Unit → World π → Prop) :
    (record occurrence).Yields w test ↔
      test () { w with trace := occurrence w.entity :: w.trace } :=
  yields_modify _ w test

@[simp] theorem yields_consulted (w : World π) (test : Entity π → World π → Prop) :
    (consulted : Act π (Entity π)).Yields w test ↔
      test w.entity { w with trace := .consulted w.entity :: w.trace } := by
  unfold consulted
  simp only [yields_bind, yields_record, yields_entity]

theorem yields_ite {c : Prop} [Decidable c] {m n : Act π α} {w : World π}
    {test : α → World π → Prop} (yes : c → m.Yields w test) (no : ¬c → n.Yields w test) :
    (if c then m else n).Yields w test := by
  split
  · exact yes ‹_›
  · exact no ‹_›

/-! ### Loops -/

/-- A test of the elements that are left passes on from one round of a loop to the next. -/
theorem yields_forM {f : α → Act π Unit} (test : List α → World π → Prop)
    (round : ∀ a rest w, test (a :: rest) w → (f a).Yields w fun _ w' => test rest w')
    (list : List α) (w : World π) (start : test list w) :
    (list.forM f).Yields w fun _ w' => test [] w' := by
  induction list generalizing w with
  | nil =>
      change Yields (pure ()) w _
      rw [yields_pure]
      exact start
  | cons a rest ih =>
      change Yields (f a >>= fun _ => rest.forM f) w _
      rw [yields_bind]
      exact (round a rest w start).mono fun _ w' next => ih w' next

/-! ### Relations that steps keep -/

def Keeps (relation : World π → World π → Prop) (m : Act π α) : Prop :=
  ∀ w, m.Yields w fun _ w' => relation w w'

/-- Relations that sequences of steps keep if every step does. -/
structure Steady (relation : World π → World π → Prop) : Prop where
  refl : ∀ w, relation w w
  trans : ∀ {w₁ w₂ w₃}, relation w₁ w₂ → relation w₂ w₃ → relation w₁ w₃

variable {relation : World π → World π → Prop}

theorem Steady.yields (steady : Steady relation) {w w₁ : World π} {m : Act π α}
    (before : relation w w₁) (keeps : m.Keeps relation) :
    m.Yields w₁ fun _ w' => relation w w' :=
  (keeps w₁).mono fun _ _ after => steady.trans before after

theorem Steady.pure (steady : Steady relation) (a : α) :
    Keeps relation (Pure.pure a : Act π α) := by
  intro w
  rw [yields_pure]
  exact steady.refl w

theorem Steady.bind (steady : Steady relation) {m : Act π α} {f : α → Act π β}
    (first : m.Keeps relation) (second : ∀ a, (f a).Keeps relation) : (m >>= f).Keeps relation := by
  intro w
  rw [yields_bind]
  exact (first w).mono fun a w₁ before => steady.yields before (second a)

theorem Steady.forM (steady : Steady relation) {f : α → Act π Unit} (list : List α)
    (each : ∀ a ∈ list, (f a).Keeps relation) : (list.forM f).Keeps relation := by
  induction list with
  | nil => exact steady.pure ()
  | cons a rest ih =>
      exact steady.bind (each a (List.mem_cons_self ..)) fun _ =>
        ih fun b member => each b (List.mem_cons_of_mem _ member)

theorem Steady.foldlM (steady : Steady relation) {f : β → α → Act π β} (list : List α)
    (each : ∀ a ∈ list, ∀ b, (f b a).Keeps relation) (b : β) :
    (list.foldlM f b).Keeps relation := by
  induction list generalizing b with
  | nil => exact steady.pure b
  | cons a rest ih =>
      rw [List.foldlM_cons]
      exact steady.bind (each a (List.mem_cons_self ..) b) fun b' =>
        ih (fun c member => each c (List.mem_cons_of_mem _ member)) b'

theorem Steady.bindE {ε : Type} (steady : Steady relation) {m : ExceptT ε (Act π) α}
    {f : α → ExceptT ε (Act π) β} (first : Keeps relation m.run)
    (second : ∀ a, Keeps relation (f a).run) : Keeps relation (m >>= f).run := by
  rw [ExceptT.run_bind]
  refine steady.bind first fun result => ?_
  cases result with
  | ok a => exact second a
  | error e => exact steady.pure _

theorem Steady.forME {ε : Type} (steady : Steady relation) {f : α → ExceptT ε (Act π) Unit}
    (list : List α) (each : ∀ a ∈ list, Keeps relation (f a).run) :
    Keeps relation (list.forM f).run := by
  induction list with
  | nil => exact steady.pure (Except.ok ())
  | cons a rest ih =>
      exact steady.bindE (each a (List.mem_cons_self ..)) fun _ =>
        ih fun b member => each b (List.mem_cons_of_mem _ member)

theorem Keeps.entity (steady : Steady relation) : (Act.entity : Act π (Entity π)).Keeps relation := by
  intro w
  rw [yields_entity]
  exact steady.refl w

/-! ### Steps that come back -/

/-- From every world with an entity a step comes back with a result and leaves another entity. -/
def Brings (m : Act π α) (e : Entity π) (a : α) (e' : Entity π) : Prop :=
  ∀ w : World π, w.entity = e → ∃ w', m w = .ok a w' ∧ w'.entity = e'

namespace Brings

variable {e e₁ e₂ : Entity π}

theorem pure (a : α) (e : Entity π) : Brings (Pure.pure a) e a e :=
  fun w same => ⟨w, rfl, same⟩

theorem bind {m : Act π α} {f : α → Act π β} {a : α} {b : β} (first : m.Brings e a e₁)
    (second : (f a).Brings e₁ b e₂) : (m >>= f).Brings e b e₂ := by
  intro w same
  obtain ⟨w₁, ends, same₁⟩ := first w same
  obtain ⟨w₂, ends₂, same₂⟩ := second w₁ same₁
  refine ⟨w₂, ?_, same₂⟩
  rw [bind_run ends]
  exact ends₂

theorem map {m : Act π α} {a : α} (f : α → β) (brings : m.Brings e a e₁) :
    (f <$> m).Brings e (f a) e₁ :=
  brings.bind (pure (f a) e₁)

theorem entity (e : Entity π) : (Act.entity : Act π (Entity π)).Brings e e e :=
  fun w same => ⟨w, by rw [← same]; rfl, same⟩

theorem modifyEntity (change : Entity π → Entity π) (e : Entity π) :
    (Act.modifyEntity change).Brings e () (change e) :=
  fun w same => ⟨_, rfl, by rw [← same]⟩

theorem updateEntity (change : Entity π → α × Entity π) (e : Entity π) :
    (Act.updateEntity change).Brings e (change e).1 (change e).2 :=
  fun w same => ⟨{ w with entity := (change e).2 }, by rw [← same]; rfl, rfl⟩

theorem record (occurrence : Entity π → Occurrence π) (e : Entity π) :
    (Act.record occurrence).Brings e () e :=
  fun _ same => ⟨_, rfl, same⟩

theorem consulted (e : Entity π) : (Act.consulted : Act π (Entity π)).Brings e e e :=
  (record .consulted e).bind (entity e)

/-- Rounds that hand on what they rely on, which may depend on the rounds that are over, make up a
whole loop. -/
private theorem loop {round : α → Entity π → Entity π → Prop}
    (run : List α → Entity π → Entity π → Prop) (done : ∀ e, run [] e e)
    (next : ∀ {a rest e e₁ e₂}, round a e e₁ → run rest e₁ e₂ → run (a :: rest) e e₂)
    (relies : List α → Entity π → Prop) (list : List α)
    (each : ∀ before a after e, list = before ++ a :: after → relies before e →
      ∃ e', round a e e' ∧ relies (before ++ [a]) e') (start : relies [] e) :
    ∃ e', run list e e' ∧ relies list e' := by
  suffices rest : ∀ after before, list = before ++ after → ∀ e, relies before e →
      ∃ e', run after e e' ∧ relies list e' from rest list [] rfl e start
  intro after
  induction after with
  | nil =>
      intro before whole e holds
      rw [List.append_nil] at whole
      exact ⟨e, done e, whole ▸ holds⟩
  | cons a after ih =>
      intro before whole e holds
      obtain ⟨e₁, first, holds₁⟩ := each before a after e whole holds
      obtain ⟨e₂, later, holds₂⟩ :=
        ih (before ++ [a]) (by rw [whole, List.append_assoc]; rfl) e₁ holds₁
      exact ⟨e₂, next first later, holds₂⟩

/-- A loop comes back if every round does. -/
theorem forM {f : α → Act π Unit} (relies : List α → Entity π → Prop) (list : List α)
    (each : ∀ before a after e, list = before ++ a :: after → relies before e →
      ∃ e', (f a).Brings e () e' ∧ relies (before ++ [a]) e') (start : relies [] e) :
    ∃ e', (list.forM f).Brings e () e' ∧ relies list e' :=
  loop (fun list e e' => (list.forM f).Brings e () e') (pure ())
    (fun first later => first.bind later) relies list each start

/-- The same for a loop that ends with the first part that is refused. -/
theorem forME {ε : Type} {f : α → ExceptT ε (Act π) Unit} (relies : List α → Entity π → Prop)
    (list : List α) (each : ∀ before a after e, list = before ++ a :: after → relies before e →
      ∃ e', Brings (f a).run e (.ok ()) e' ∧ relies (before ++ [a]) e') (start : relies [] e) :
    ∃ e', Brings (list.forM f).run e (.ok ()) e' ∧ relies list e' :=
  loop (fun list e e' => Brings (list.forM f).run e (.ok ()) e') (pure (Except.ok ()))
    (fun first later => first.bind later) relies list each start

end Brings

/-! ### Steps that run out of levels -/

/-- From every world with an entity a step fails because it is nested too deep. -/
def Sinks (m : Act π α) (e : Entity π) : Prop :=
  ∀ w : World π, w.entity = e → ∃ w', m w = .error .nestedTooDeep w'

theorem Sinks.bind {m : Act π α} {e : Entity π} (sinks : m.Sinks e) (f : α → Act π β) :
    (m >>= f).Sinks e := by
  intro w same
  obtain ⟨w', fails⟩ := sinks w same
  exact ⟨w', bind_fails fails⟩

theorem Brings.sinks {m : Act π α} {f : α → Act π β} {a : α} {e e₁ : Entity π}
    (brings : m.Brings e a e₁) (sinks : (f a).Sinks e₁) : (m >>= f).Sinks e := by
  intro w same
  obtain ⟨w₁, ends, same₁⟩ := brings w same
  obtain ⟨w', fails⟩ := sinks w₁ same₁
  exact ⟨w', (bind_run ends).trans fails⟩

end StatusEffects.Act
