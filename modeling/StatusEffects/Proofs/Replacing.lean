import StatusEffects.Proofs.CallPaths
import StatusEffects.Proofs.Loading
import StatusEffects.Proofs.Refusals

/-!
A stack in the place of all stacks of its source.

The earlier stacks go first, which is settled before the new one comes. Settling may end the effect,
take it out with its modifiers and custom conditions, and let the gates of other entries flip. None of
this touches a deed, so what is left of the effect does not matter: it becomes live again if it has to,
and the new stack joins whatever others own.

Such a call comes back unless a count overflows or its notices never end. With levels of nesting to
spend, the latter shows in a call that runs out of levels after it has opened as many.
-/

set_option autoImplicit false

namespace StatusEffects

variable {π : Type}

/-! ### Levels of nesting -/

def Occurrence.isNested : Occurrence π → Bool
  | .statChanged .. | .hookStarted .. => true
  | _ => false

def World.nestings (w : World π) : Nat := w.trace.countP Occurrence.isNested

/-- Why a step does not come back: a count overflows, or at least so many levels have been opened since
a world. -/
def Fault.Exhausts (levels : Nat) (w : World π) (f : Fault) (w' : World π) : Prop :=
  (∃ effect, f = .countOverflow effect) ∨ f = .nestedTooDeep ∧ w.nestings + levels ≤ w'.nestings

theorem World.nestings_tell (w : World π) (o : Occurrence π) :
    w.nestings ≤ World.nestings { w with trace := o :: w.trace } := by
  unfold World.nestings
  rw [List.countP_cons]
  omega

theorem World.nestings_open (w : World π) {o : Occurrence π} (opens : o.isNested = true) :
    World.nestings { w with trace := o :: w.trace } = w.nestings + 1 := by
  unfold World.nestings
  rw [List.countP_cons_of_pos opens]

theorem Fault.Exhausts.after {levels : Nat} {w w₁ w' : World π} {f : Fault}
    (le : w.nestings ≤ w₁.nestings) (exhausts : f.Exhausts levels w₁ w') :
    f.Exhausts levels w w' := by
  refine exhausts.imp_right fun ⟨deep, opened⟩ => ⟨deep, ?_⟩
  omega

/-! ### Steps that keep the deeds of an effect -/

structure Keeping (effect : EffectName) (w w' : World π) : Prop where
  deeds : w.entity.Tidy → w'.entity.Tidy ∧ w'.entity.deeds effect = w.entity.deeds effect
  nestings : w.nestings ≤ w'.nestings

theorem Keeping.of_entity {effect : EffectName} {w w' : World π} (same : w'.entity = w.entity)
    (le : w.nestings ≤ w'.nestings) : Keeping effect w w' := by
  refine ⟨fun tidy => ?_, le⟩
  rw [same]
  exact ⟨tidy, rfl⟩

theorem Keeping.steady (effect : EffectName) : Act.Steady (Keeping (π := π) effect) where
  refl w := .of_entity rfl (Nat.le_refl _)
  trans first second := by
    refine ⟨fun tidy => ?_, Nat.le_trans first.nestings second.nestings⟩
    obtain ⟨tidy₁, same₁⟩ := first.deeds tidy
    obtain ⟨tidy₂, same₂⟩ := second.deeds tidy₁
    exact ⟨tidy₂, same₂.trans same₁⟩

/-- A step keeps the deeds of an effect, and it only runs out of levels if it opens as many. -/
structure Bounded (effect : EffectName) (levels : Nat) {α : Type} (m : Act π α) : Prop where
  keeps : m.Keeps (Keeping effect)
  faults : ∀ w, m.Fails w (Fault.Exhausts levels w)

namespace Bounded

variable {effect : EffectName} {levels : Nat} {α β : Type}

theorem pure (a : α) : Bounded effect levels (Pure.pure a : Act π α) :=
  ⟨(Keeping.steady effect).pure a, by simp⟩

theorem bind {m : Act π α} {f : α → Act π β} (first : Bounded effect levels m)
    (second : ∀ a, Bounded effect levels (f a)) : Bounded effect levels (m >>= f) where
  keeps := (Keeping.steady effect).bind first.keeps fun a => (second a).keeps
  faults w := by
    rw [Act.fails_bind]
    refine ⟨first.faults w, (first.keeps w).mono fun a w₁ keeping f w' fails => ?_⟩
    exact .after keeping.nestings ((second a).faults w₁ f w' fails)

theorem record (mark : Entity π → Occurrence π) : Bounded effect levels (Act.record mark) where
  keeps w := by
    rw [Act.yields_record]
    exact .of_entity rfl (w.nestings_tell _)
  faults w := by simp

theorem running (change : List Hook → List Hook) : Bounded effect levels
    (modify fun w : World π => { w with running := change w.running } : Act π Unit) where
  keeps w := by
    rw [Act.yields_modify]
    exact .of_entity rfl (Nat.le_refl _)
  faults w := by simp

/-- What follows the opening of a level may open one level less. -/
theorem nest {mark : Entity π → Occurrence π} (opens : ∀ e, (mark e).isNested = true)
    {f : Unit → Act π α} (rest : Bounded effect levels (f ())) :
    Bounded effect (levels + 1) (Act.record mark >>= f) where
  keeps := by
    have tells : Bounded effect levels (Act.record mark) := record mark
    exact (Keeping.steady effect).bind tells.keeps fun _ => rest.keeps
  faults w := by
    rw [Act.fails_bind, Act.fails_record, Act.yields_record, true_and]
    intro f w' fails
    refine (rest.faults _ f w' fails).imp_right fun ⟨deep, opened⟩ => ⟨deep, ?_⟩
    rw [w.nestings_open (opens w.entity)] at opened
    omega

end Bounded

namespace Engine

open Act

variable [CustomTrigger π] {rules : Rulebook π} {nested : Nested π} {leeway : Leeway}
  {effect : EffectName} {levels : Nat} {α : Type}

section

variable (serves : ∀ r, Due rules leeway r → Bounded effect levels (nested r))

include serves

omit [CustomTrigger π] in
theorem Stride.nestings_le {w w' : World π} (stride : Stride rules nested leeway w w') :
    w.nestings ≤ w'.nestings := by
  cases stride with
  | change discreet => exact Nat.le_refl _
  | tell o plain seen => exact w.nestings_tell o
  | request due served => exact ((serves _ due).keeps w () w' served).nestings

omit [CustomTrigger π] in
theorem Stride.keeping (other : ¬leeway.effects effect) {w w' : World π}
    (stride : Stride rules nested leeway w w') : Keeping effect w w' := by
  refine ⟨?_, stride.nestings_le serves⟩
  cases stride with
  | change discreet =>
      intro tidy
      obtain ⟨tidy', leaves⟩ := discreet tidy
      exact ⟨tidy', (leaves.deeds effect).resolve_left other⟩
  | tell o plain seen => exact fun tidy => ⟨tidy, rfl⟩
  | request due served => exact ((serves _ due).keeps w () w' served).deeds

omit [CustomTrigger π] in
/-- A step on a path only runs out of levels if it opens as many. -/
theorem Paved.exhausts {m : Act π α} (paved : Paved rules nested leeway m) (w : World π) :
    m.Fails w (Fault.Exhausts levels w) := by
  intro f w' fails
  have arrives := paved w
  rw [fails] at arrives
  obtain ⟨w₁, path, stops⟩ := arrives
  have le : w.nestings ≤ w₁.nestings := path.keeps (fun w₁ => w.nestings ≤ w₁.nestings)
    (fun _ _ stride before => Nat.le_trans before (stride.nestings_le serves)) (Nat.le_refl _)
  cases stops with
  | overflow name => exact .inl ⟨name, rfl⟩
  | request due fails => exact .after le ((serves _ due).faults w₁ f w' fails)

omit [CustomTrigger π] in
/-- A step on a path that is about other effects keeps the deeds of an effect. -/
theorem Paved.bounded (other : ¬leeway.effects effect) {m : Act π α}
    (paved : Paved rules nested leeway m) : Bounded effect levels m where
  keeps w a w' returns := by
    have arrives := paved w
    rw [returns] at arrives
    exact Path.steady (Keeping.steady effect) (fun _ _ stride => stride.keeping serves other) arrives
  faults := paved.exhausts serves

end

def besides (effect : EffectName) : Leeway := ⟨(· ≠ effect), True⟩

/-- The rules start no script that is about an effect. -/
def Aloof (rules : Rulebook π) (effect : EffectName) : Prop :=
  ∀ hook script, rules.Starts hook script → ∀ c, script.Makes c → ¬c.Concerns effect

omit [CustomTrigger π] in
theorem sight_bounded : Bounded effect levels (sight rules) where
  keeps w := by simpa [sight] using (Keeping.steady effect).refl w
  faults w := by simp [sight]

theorem runScriptWith_bounded
    (serves : ∀ r, Due rules (besides effect) r → Bounded effect levels (nested r))
    (script : Script π α) (aloof : ∀ c, script.Makes c → ¬c.Concerns effect) :
    Bounded effect levels (runScriptWith nested rules script) := by
  induction script with
  | done result => exact .pure result
  | call c next ih =>
      have paved : Paved rules nested (besides effect) (performWith nested rules c) :=
        performWith_paved c (fun name concerned same => aloof c .here (same ▸ concerned))
          fun _ => trivial
      refine (paved.bounded serves fun differs => differs rfl).bind fun reply => ?_
      exact .bind (.record _) fun _ => ih reply fun other made => aloof other (.called made)
  | look next ih =>
      exact sight_bounded.bind fun seen => ih seen fun other made => aloof other (.looked made)
  | note answer next ih =>
      exact .bind (.record _) fun _ => ih fun other made => aloof other (.noted made)

/-- Requests keep the deeds of an effect that no hook is about, and only run out of levels if they open
as many. -/
theorem serve_bounded (aloof : Aloof rules effect) (levels : Nat) (r : Request π)
    (due : Due rules (besides effect) r) : Bounded effect levels (serve rules levels r) := by
  induction levels generalizing r with
  | zero =>
      refine ⟨fun w => ?_, fun w => ?_⟩
      · rw [serve, yields_throw]
        trivial
      · rw [serve, fails_throw]
        exact .inr ⟨rfl, Nat.le_refl _⟩
  | succ levels ih =>
      cases due with
      | announce stat =>
          refine .nest (fun _ => rfl) ?_
          exact (observe_paved stat).bounded ih fun differs => differs rfl
      | @run hook script starts may =>
          refine Bounded.bind (.running (hook :: ·)) fun _ => .nest (fun _ => rfl) ?_
          refine (runScriptWith_bounded ih script (aloof _ _ starts)).bind fun _ => ?_
          exact .bind (.record _) fun _ => .running List.tail

end Engine

/-! ### Deeds that go and come -/

def Deed.besides (source : SourceTag) (deeds : List Deed) : List Deed :=
  deeds.filter fun deed => deed.source ≠ source

namespace Entity

variable {e : Entity π} {effect : EffectName}

/-- With the stacks of a source their deeds go. -/
theorem deeds_detachStacksOf (tidy : e.Tidy) {live : LiveEffect π}
    (found : e.effects.get? effect = some live) (source : SourceTag) :
    (e.detachStacks effect (live.stacksOf source)).2.deeds effect =
      Deed.besides source (e.deeds effect) := by
  have left : (e.detachStacks effect (live.stacksOf source)).2.effects.get? effect =
      some (live.without (live.stacksOf source)) := by
    rw [tidy.effects_detachStacks, Table.get?_modify, if_pos rfl, found]
    rfl
  rw [deeds_of_found left, deeds_of_found found]
  unfold Deed.besides LiveEffect.without
  rw [List.filter_filterMap, List.filterMap_filter]
  apply List.filterMap_congr
  intro s member
  have listed : s.id ∈ live.stacksOf source ↔ s.source = some source := by
    constructor
    · intro there
      obtain ⟨other, chosen, same⟩ := List.mem_map.1 there
      obtain ⟨present, owner⟩ := List.mem_filter.1 chosen
      have equal := (tidy.effects effect live found).unique present member same
      exact equal ▸ of_decide_eq_true owner
    · intro owner
      exact List.mem_map.2 ⟨s, List.mem_filter.2 ⟨member, decide_eq_true owner⟩, rfl⟩
  unfold Stack.deed?
  cases owner : s.source with
  | none => simp
  | some other =>
      rw [owner, Option.some.injEq] at listed
      by_cases same : other = source
      · simp [listed, same, Option.filter_some]
      · simp [listed, same, Option.filter_some]

/-- A stack that joins a live effect brings its deed. -/
theorem deeds_pushStack [CustomTrigger π] (lives : e.effects.contains effect = true) (s : Stack π) :
    (e.pushStack effect s).deeds effect = e.deeds effect ++ s.deed?.toList := by
  obtain ⟨live, found⟩ := Option.isSome_iff_exists.1 lives
  have joined : (e.pushStack effect s).effects.get? effect =
      some { live with held := live.held ++ [s] } := by
    refine (get?_modifyEffect e effect effect _).trans ?_
    rw [if_pos rfl, found]
    rfl
  rw [deeds_of_found joined, deeds_of_found found, List.filterMap_append]
  cases deed : s.deed? with
  | none => rw [List.filterMap_cons_none deed]; rfl
  | some deed => rw [List.filterMap_cons_some deed]; rfl

end Entity

/-- A fresh stack that starts under an owner has the deed of its handle, owner and value. -/
theorem Stack.deed?_attach [CustomTrigger π] {s : Stack π} (fresh : s.attached = false)
    (r : Readings) (source : SourceTag) :
    (s.attach r (some source)).deed? = some ⟨s.id, source, s.value⟩ := by
  unfold Stack.attach
  rw [fresh]
  rfl

theorem Stack.isSourced_of_deed? {s : Stack π} {deed : Deed} (owned : s.deed? = some deed) :
    s.isSourced = true := by
  obtain ⟨source, owner, -⟩ := Option.map_eq_some_iff.1 owned
  unfold Stack.isSourced
  rw [owner]
  rfl

namespace Engine

open Act

variable [CustomTrigger π] {rules : Rulebook π} {effect : EffectName} {nested : Nested π}
  {levels : Nat} (serves : ∀ r, Due rules (besides effect) r → Bounded effect levels (nested r))

include serves

/-- The stacks of a source go, and settling this touches no other deed. -/
theorem removeStacksOf_deeds (source : SourceTag) {w : World π} (tidy : w.entity.Tidy) :
    (removeStacksOf nested rules effect source).Yields w fun _ w' => w'.entity.Tidy ∧
      w'.entity.deeds effect = Deed.besides source (w.entity.deeds effect) := by
  refine removeStacksOf_cases (fun none => ⟨tidy, ?_⟩) fun live found _ => ?_
  · cases found : w.entity.effects.get? effect with
    | none => rw [Entity.deeds_of_absent found, Deed.besides, List.filter_nil]
    | some live =>
        have left := Entity.deeds_detachStacksOf tidy found source
        rwa [Entity.detachStacks_of_zero (none live found)] at left
  · have settles : Bounded effect levels (settleStacks nested rules effect) :=
      (settleStacks_paved effect).bounded serves fun differs => differs rfl
    refine (settles.keeps _).mono fun _ w' keeping => ?_
    obtain ⟨tidy', same⟩ := keeping.deeds (tidy.detachStacks effect (live.stacksOf source))
    exact ⟨tidy', same.trans (Entity.deeds_detachStacksOf tidy found source)⟩

/-- A stack of an owner joins its effect with a handle of its own and the value it came with, whether
or not the effect was live. -/
theorem addStackOf_deeds {d : EffectDefinition π} (registered : rules.effects.get? effect = some d)
    {s : Stack π} (fresh : s.attached = false) (source : SourceTag) {w : World π}
    (tidy : w.entity.Tidy) :
    (addStackOf nested rules d s (some source)).Yields w fun outcome w' => ∃ id,
      outcome = .stack id ∧
        w'.entity.deeds effect = w.entity.deeds effect ++ [⟨id, source, s.value⟩] := by
  have filed : d.effect = effect := rules.filed effect d registered
  have bounded {α : Type} {act : Act π α} (paved : Paved rules nested (besides effect) act) :
      Bounded effect levels act := paved.bounded serves fun differs => differs rfl
  refine addStackOf_cases (fun _ outcome w₂ => w₂.entity.Tidy ∧ ∃ id, outcome = .stack id ∧
      w₂.entity.deeds effect = w.entity.deeds effect ++ [⟨id, source, s.value⟩])
    (fun created w₁ ensures s' attached handle => ?places)
    (fun created outcome w₂ placed _ => ?settles) (fun _ _ placed _ => placed.2)
    fun outcome w₂ placed refused => ?empties
  case places =>
    have opens := bounded (ensureLive_paved d)
    obtain ⟨tidy₁, same₁⟩ := (opens.keeps w created w₁ ensures).deeds tidy
    have lives : w₁.entity.effects.contains effect = true :=
      filed ▸ ensureLive_contains w created w₁ ensures
    have deed : s'.deed? = some ⟨w₁.entity.nextHandle, source, s.value⟩ := by
      rw [← attached]
      exact Stack.deed?_attach (s := { s with
        duration := stackDuration d s.duration, id := w₁.entity.nextHandle }) fresh _ source
    rw [placeStack_of_sourced (Stack.isSourced_of_deed? deed), filed]
    refine pushStack_cases (fun _ => ⟨?_, s'.id, rfl, ?_⟩) fun dead =>
      Bool.noConfusion (lives.symm.trans dead)
    · exact tidy₁.takeHandle.pushStack (handle ▸ tidy₁.spare)
    · have pushed := Entity.deeds_pushStack (e := w₁.entity.takeHandle.2) lives s'
      rw [pushed, deed, ← same₁, handle]
      rfl
  case settles =>
    obtain ⟨tidy₂, id, named, joined⟩ := placed
    have settles := bounded (settleStacks_paved d.effect)
    have hooks := bounded (stackAdded_paved registered)
    refine (settles.keeps w₂).mono fun _ w₃ settled => (hooks.keeps w₃).mono fun _ w' hooked => ?_
    obtain ⟨tidy₃, same₃⟩ := settled.deeds tidy₂
    exact ⟨id, named, (hooked.deeds tidy₃).2.trans (same₃.trans joined)⟩
  case empties =>
    obtain ⟨-, id, rfl, -⟩ := placed
    cases refused

/-- The stacks of the source go, and the new stack comes. -/
theorem replaceStack_deeds {d : EffectDefinition π} (registered : rules.effects.get? effect = some d)
    {s : Stack π} (fresh : s.attached = false) (source : SourceTag) {w : World π}
    (tidy : w.entity.Tidy) :
    (replaceStack nested rules effect s (some source)).Yields w fun reply w' => ∃ id,
      reply = .ok (.stack id) ∧ w'.entity.deeds effect =
        Deed.besides source (w.entity.deeds effect) ++ [⟨id, source, s.value⟩] := by
  refine replaceStack_cases (fun unknown => ?_) nofun fun tag owned _ => ?_
  · rw [Table.contains, registered] at unknown
    cases unknown
  · cases owned
    refine (removeStacksOf_deeds serves source tidy).mono fun _ w₁ removed => ?_
    obtain ⟨tidy₁, left⟩ := removed
    refine addStack_cases (fun unknown => ?_) fun d' there _ => ?_
    · rw [registered] at unknown
      cases unknown
    · refine (addStackOf_deeds serves there fresh source tidy₁).mono fun outcome w' joined => ?_
      obtain ⟨id, rfl, deeds⟩ := joined
      exact ⟨id, rfl, by rw [deeds, left]⟩

end Engine

open Engine

/-- A fresh stack takes the place of all stacks that its source owns of a registered effect, in every
state that a run can reach and with hooks that are about other effects, if there are any. The call comes
back with a handle, and the deeds of the effect are then those that others own, as they are and in their
order, and after them the deed of the new stack: its handle, its source and the value it came with. Only
a count that overflows and notices that never end keep the call from coming back: if it runs out of
levels, it has opened as many. -/
theorem replacement_leaves_the_new_stack [CustomTrigger π] {rules : Rulebook π}
    {snapshots : Snapshot → Prop} {calls : Entity π → Call π → Prop} {w : World π}
    (reached : Reached rules snapshots calls w) {effect : EffectName}
    (registered : rules.effects.contains effect = true) (aloof : Aloof rules effect) {s : Stack π}
    (fresh : s.attached = false) (source : SourceTag) (levels : Nat) :
    (∃ id w', perform rules levels (.replaceStack effect s (some source)) w = .ok (.ok (.stack id)) w' ∧
      (w'.entity.deeds effect).filter (fun deed => deed.source = source) = [⟨id, source, s.value⟩] ∧
      (w'.entity.deeds effect).filter (fun deed => deed.source ≠ source) =
        (w.entity.deeds effect).filter fun deed => deed.source ≠ source) ∨
    ∃ f w', perform rules levels (.replaceStack effect s (some source)) w = .error f w' ∧
      ((∃ name, f = .countOverflow name) ∨
        f = .nestedTooDeep ∧ w.nestings + levels ≤ w'.nestings) := by
  obtain ⟨sound, -⟩ := reached.settled
  obtain ⟨d, found⟩ := Option.isSome_iff_exists.1 registered
  have serves := serve_bounded aloof levels
  have paved : Paved rules (serve rules levels) ⟨fun _ => True, True⟩
      (perform rules levels (.replaceStack effect s (some source))) :=
    performWith_paved _ (fun _ _ => trivial) fun _ => trivial
  cases ends : perform rules levels (.replaceStack effect s (some source)) w with
  | ok reply w' =>
      obtain ⟨id, rfl, deeds⟩ := replaceStack_deeds serves found fresh source sound.tidy reply w' ends
      refine .inl ⟨id, w', rfl, ?_, ?_⟩
      · rw [deeds, Deed.besides, List.filter_append, List.filter_filter]
        simp
      · rw [deeds, Deed.besides, List.filter_append, List.filter_filter]
        simp
  | error f w' =>
      have requests (r : Request π) (due : Due rules ⟨fun _ => True, True⟩ r) :
          Bounded effect levels (serve rules levels r) := by
        apply serves
        cases due with
        | announce stat => exact .announce stat
        | run starts may => exact .run starts (.inl trivial)
      exact .inr ⟨f, w', rfl, paved.exhausts requests w f w' ends⟩

def Occurrence.isEnd : Occurrence Empty → Bool
  | .effectRemoved .. => true
  | _ => false

/-- The only stack of a tower is replaced: its effect ends with the modifier on health, becomes live
again, and holds the new stack alone. -/
theorem fortify_replaced : ∃ (w w' : World Empty) (id : Handle),
    Reached fortifyRules (fun _ => True) (fun _ _ => True) w ∧
      (w.entity.deeds "fortify").map Deed.value = [4] ∧
      perform fortifyRules 8 (.replaceStack "fortify" (.ofValue 2) (some "tower")) w =
        .ok (.ok (.stack id)) w' ∧
      w'.trace.any Occurrence.isEnd = true ∧
      (w'.entity.deeds "fortify").filter (fun deed => deed.source = "tower") = [⟨id, "tower", 2⟩] := by
  have made : ((performAll fortifyRules 8 [.addStack "fortify" (.ofValue 4) (some "tower")]
      (.ofEntity .new)).any fun w => (w.entity.deeds "fortify").map Deed.value = [4] &&
        (performAll fortifyRules 8 [.replaceStack "fortify" (.ofValue 2) (some "tower")] w).any
          fun w' => w'.trace.any Occurrence.isEnd) = true := by
    decide +kernel
  obtain ⟨w, run, checked⟩ := (Option.any_eq_true ..).1 made
  rw [Bool.and_eq_true, decide_eq_true_eq] at checked
  obtain ⟨before, replaced⟩ := checked
  obtain ⟨w₁, run₁, ended⟩ := (Option.any_eq_true ..).1 replaced
  obtain ⟨reply, made₁⟩ := perform_of_performAll run₁
  have reached : Reached fortifyRules (fun _ => True) (fun _ _ => True) w :=
    reached_of_performAll .new (fun _ _ _ => trivial) run
  have aloof : Aloof fortifyRules "fortify" := fun hook script starts =>
    absurd starts (fortifyRules_hookless hook script)
  have registered : fortifyRules.effects.contains "fortify" = true := rfl
  rcases replacement_leaves_the_new_stack reached registered aloof
    (s := .ofValue 2) rfl "tower" 8 with ⟨id, w', returns, own, -⟩ | ⟨f, w', fails, -⟩
  · rw [returns] at made₁
    cases made₁
    exact ⟨w, w₁, id, reached, before, returns, ended, own⟩
  · rw [fails] at made₁
    cases made₁

/-! ### Calls that never come back -/

namespace Engine

open Act

variable [CustomTrigger π] {rules : Rulebook π} {nested : Nested π} {e : Entity π}

omit [CustomTrigger π] in
/-- Taking out the only modifier of a source does not end if announcing its stat does not. -/
theorem removeModifiersOf_sinks {source : SourceTag} {m : Modifier π}
    (only : e.modifiers.ofSource (some source) = [m])
    (sinks : (nested (.announce m.stat)).Sinks (e.dropModifiersOf source)) :
    (removeModifiersOf nested source).Sinks e := by
  unfold removeModifiersOf
  refine (Brings.entity e).sinks ?_
  rw [only]
  refine (Brings.modifyEntity _ e).sinks (Sinks.bind ?_ _)
  exact Sinks.bind sinks _

/-- Settling does not end if taking out the modifiers of the effect does not. -/
theorem settle_sinks {d : EffectDefinition π} (registered : rules.effects.get? d.effect = some d)
    (unhooked : d.Unhooked) {live : LiveEffect π} (found : e.effects.get? d.effect = some live)
    (drained : live.activeSum = 0) (active : live.active = true) (modifies : d.modifiers ≠ [])
    (sinks : (removeModifiersOf nested (.ofEffect d.effect)).Sinks (e.storeCount d.effect 0 false)) :
    (settle nested rules d.effect).Sinks e := by
  have bounded : live.activeSum < UInt32.size := by
    rw [drained]
    decide
  have counted : live.activeSum.toUInt32 = 0 := by rw [drained]; rfl
  let v : Verdict := ⟨live.serial, 0, false, live.count != 0, live.active != false⟩
  have counts : (recount rules d.effect).Brings e (some v) (e.storeCount d.effect 0 false) :=
    recount_brings found bounded counted rfl
  have there : (e.storeCount d.effect 0 false).effects.get? d.effect =
      some { live with count := 0, active := false } :=
    Entity.get?_storeCount found ..
  have holds : v.holds (e.storeCount d.effect 0 false) d.effect = true :=
    (holds_iff there).2 ⟨rfl, rfl, rfl⟩
  have renews : v.renews d = true := by
    change (!d.modifiers.isEmpty && ((live.active != false) || _)) = true
    rw [List.isEmpty_eq_false_iff.2 modifies, active]
    rfl
  have renewal : (renewModifiers nested rules d v.active v.count).Sinks
      (e.storeCount d.effect 0 false) :=
    (Brings.record _ _).sinks (Sinks.bind sinks _)
  have modifiers : (settleModifiers nested rules d.effect v).Sinks (e.storeCount d.effect 0 false) := by
    unfold settleModifiers
    rw [registered]
    dsimp only
    rw [if_pos renews]
    exact Sinks.bind renewal _
  exact counts.sinks ((settleFlip_brings registered unhooked holds).sinks (Sinks.bind modifiers _))

/-- Replacing does not end if settling without the earlier stacks does not. -/
theorem replaceStack_sinks {effect : EffectName} (registered : rules.effects.contains effect = true)
    {live : LiveEffect π} (found : e.effects.get? effect = some live) {source : SourceTag}
    (taken : 0 < (e.detachStacks effect (live.stacksOf source)).1)
    (sinks : (settle nested rules effect).Sinks (e.detachStacks effect (live.stacksOf source)).2)
    (s : Stack π) : (replaceStack nested rules effect s (some source)).Sinks e := by
  have removes : (removeStacksOf nested rules effect source).Sinks e := by
    unfold removeStacksOf
    refine (Brings.entity e).sinks ?_
    rw [found]
    refine (Brings.updateEntity _ e).sinks ?_
    rw [if_pos taken]
    exact Sinks.bind ((Brings.record _ _).sinks sinks) _
  unfold replaceStack
  rw [if_pos registered]
  exact Sinks.bind removes _

end Engine

open Act

/-- A ring that adds to health, and rests while health is not full. -/
def ring : Modifier Empty :=
  { (Modifier.ofParts "health" .add 20 : Modifier Empty) with
    duration := .ofTrigger (.threshold ⟨"health", .less, 100, true⟩) }

def wornRing (awake : Bool) : Modifier Empty :=
  { ring with
    id := 4
    source := some "item"
    active := awake
    attached := true
    duration := .node { Node.ofTrigger (.threshold ⟨"health", .less, 100, true⟩) with
      met := !awake, armed := true } .absent .absent }

/-- An entity whose health has only the ring to add to it, which has yet to look at what it does. -/
structure Entity.Spins (awake : Bool) (e : Entity Empty) : Prop where
  unset : e.values.get? "health" = none
  worn : e.modifiers.get "health" = [wornRing awake]
  watched : e.watchers.get "health" = [.modifier "health" 4]

instance (awake : Bool) (e : Entity Empty) : Decidable (e.Spins awake) :=
  decidable_of_iff (e.values.get? "health" = none ∧ e.modifiers.get "health" = [wornRing awake] ∧
    e.watchers.get "health" = [.modifier "health" 4])
    ⟨fun ⟨unset, worn, watched⟩ => ⟨unset, worn, watched⟩,
      fun ⟨unset, worn, watched⟩ => ⟨unset, worn, watched⟩⟩

theorem fortifyRules_plain : fortifyRules.statRules = ∅ := rfl

/-- With the ring asleep health is full, and with the ring awake it is not. -/
theorem Entity.Spins.observe {awake : Bool} {e : Entity Empty} (spins : e.Spins awake) :
    (wornRing awake).duration.observe "health" (fortifyRules.readings e) =
      ((wornRing !awake).duration, true) := by
  have stored : fortifyRules.stat e "health" = .ofBase 100 := by
    unfold Rulebook.stat
    rw [spins.unset]
    rfl
  have current : (fortifyRules.readings e).current "health" = 100 :=
    congrArg StatValue.current stored
  have computed : (fortifyRules.readings e).computed "health" = if awake then 120 else 100 := by
    refine (Rulebook.calculate_of_plain fortifyRules_plain e "health" .standard).trans ?_
    rw [stored, spins.worn]
    cases awake
    · decide +kernel
    · decide +kernel
  have met : Threshold.isMet ⟨"health", .less, 100, true⟩ (fortifyRules.readings e) = awake := by
    unfold Threshold.isMet Threshold.effectiveTarget
    rw [if_pos rfl, current, computed]
    cases awake
    · decide +kernel
    · decide +kernel
  unfold wornRing
  simp [Condition.observe, Node.ofTrigger, Trigger.watched, Node.review, Node.outcome, Trigger.isMet, met]

theorem Entity.Spins.condition {awake : Bool} {e : Entity Empty} (spins : e.Spins awake) :
    e.condition (.modifier "health" 4) = (wornRing awake).duration := by
  change ((e.modifiers.find? "health" 4).map Modifier.duration).getD .absent = _
  unfold ModifierLists.find?
  rw [spins.worn]
  rfl

/-- Every announcement of health turns the ring, which announces health again. -/
theorem announce_sinks (levels : Nat) {awake : Bool} {e : Entity Empty} (spins : e.Spins awake) :
    (serve fortifyRules levels (.announce "health")).Sinks e := by
  induction levels generalizing awake e with
  | zero => exact fun w _ => ⟨w, rfl⟩
  | succ levels ih =>
    have there : e.condition (.modifier "health" 4) ≠ .absent := by
      rw [spins.condition]
      nofun
    have applied : Stimulus.apply (.stat "health") (fortifyRules.readings e)
        (e.condition (.modifier "health" 4)) = ((wornRing !awake).duration, true) := by
      rw [spins.condition]
      exact spins.observe
    let turned := e.setCondition (.modifier "health" 4) (wornRing !awake).duration
    have found : turned.modifiers.find? "health" 4 =
        some { wornRing awake with duration := (wornRing !awake).duration } := by
      change ((e.modifiers.modify _ _ _).get "health").find? _ = _
      rw [ModifierLists.get_modify, if_pos rfl, spins.worn]
      rfl
    let next := turned.updateModifier "health" 4 (wornRing !awake)
    have again : next.Spins !awake := by
      refine ⟨spins.unset, ?_, spins.watched⟩
      change ((e.modifiers.modify _ _ _).modify _ _ _).get "health" = _
      rw [ModifierLists.get_modify, if_pos rfl, ModifierLists.get_modify, if_pos rfl, spins.worn]
      rfl
    have reacts : (modifierStimulated (serve fortifyRules levels) "health" 4).Sinks turned := by
      unfold modifierStimulated
      refine (Brings.entity turned).sinks ?_
      rw [found]
      refine (Brings.modifyEntity _ turned).sinks ?_
      cases awake
      · exact ih again
      · exact ih again
    have exposed : (expose (serve fortifyRules levels) fortifyRules (.modifier "health" 4)
        (.stat "health")).Sinks e :=
      (stimulate_applies fortifyRules_plain there applied).sinks reacts
    change (announceStat (serve fortifyRules levels) fortifyRules "health").Sinks e
    unfold announceStat
    refine (Brings.record _ e).sinks ((Brings.entity e).sinks ?_)
    rw [spins.watched]
    refine Sinks.bind ((Brings.entity e).sinks ?_) _
    rw [spins.watched]
    exact exposed

/-- While the stack of the tower counts, the ring rests. Replacing it takes the effect's modifier off
health, so the ring wakes up, which leaves health less than full, so it rests, and so on: the call runs
out of however many levels there are, and no count overflows. -/
theorem ring_never_replaced : ∃ w : World Empty,
    (∀ hook script, ¬fortifyRules.Starts hook script) ∧
      Reached fortifyRules (fun _ => True) (fun _ c => c.Fresh) w ∧
      fortifyRules.effects.contains "fortify" = true ∧ (Stack.ofValue 2 : Stack Empty).Fresh ∧
      ∀ levels, ∃ w', perform fortifyRules levels
        (.replaceStack "fortify" (.ofValue 2) (some "tower")) w = .error .nestedTooDeep w' := by
  have made : ((performAll fortifyRules 8 [.addStack "fortify" (.ofValue 2) (some "tower"),
      .addModifier ring (some "item")] (.ofEntity .new)).any fun w =>
      (w.entity.effects.get? "fortify").any fun live =>
        let taken := w.entity.detachStacks "fortify" (live.stacksOf "tower")
        let stored := taken.2.storeCount "fortify" 0 false
        0 < taken.1 &&
          (taken.2.effects.get? "fortify").any (fun left => left.activeSum = 0 && left.active) &&
          (stored.modifiers.ofSource (some (.ofEffect "fortify"))).map Modifier.stat = ["health"] &&
          (stored.dropModifiersOf (.ofEffect "fortify")).Spins false) = true := by
    decide +kernel
  obtain ⟨w, run, checked⟩ := (Option.any_eq_true ..).1 made
  obtain ⟨live, found, checked⟩ := (Option.any_eq_true ..).1 checked
  dsimp only at checked
  rw [Bool.and_eq_true, Bool.and_eq_true, Bool.and_eq_true, decide_eq_true_eq, decide_eq_true_eq,
    decide_eq_true_eq] at checked
  obtain ⟨⟨⟨taken, settles⟩, applied⟩, spins⟩ := checked
  obtain ⟨left, there, settles⟩ := (Option.any_eq_true ..).1 settles
  rw [Bool.and_eq_true, decide_eq_true_eq] at settles
  obtain ⟨drained, active⟩ := settles
  obtain ⟨m, only, health⟩ := List.map_eq_singleton_iff.1 applied
  have reached : Reached fortifyRules (fun _ => True) (fun _ c => c.Fresh) w := by
    refine reached_of_performAll .new (fun c listed _ => ?_) run
    simp only [List.mem_cons, List.not_mem_nil, or_false] at listed
    rcases listed with rfl | rfl
    · exact ⟨rfl, by decide⟩
    · exact ⟨rfl, by decide⟩
  refine ⟨w, fortifyRules_hookless, reached, rfl, ⟨rfl, by decide⟩, fun levels => ?_⟩
  generalize detached : w.entity.detachStacks "fortify" (live.stacksOf "tower") = pair at *
  have settles : (settle (serve fortifyRules levels) fortifyRules "fortify").Sinks pair.2 := by
    refine settle_sinks (d := fortify) rfl ⟨rfl, rfl⟩ there drained active nofun ?_
    refine removeModifiersOf_sinks only ?_
    rw [health]
    exact announce_sinks levels spins
  have sinks : (replaceStack (serve fortifyRules levels) fortifyRules "fortify" (.ofValue 2)
      (some "tower")).Sinks w.entity := by
    subst detached
    exact replaceStack_sinks rfl found taken settles _
  exact sinks w rfl

end StatusEffects
