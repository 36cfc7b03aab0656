import StatusEffects.Proofs.Counter
import StatusEffects.Proofs.Handles

/-!
Additions that are refused change nothing.

A stack is refused only after its effect has been made live, the conditions of the custom effects
have been armed and subscribed, and the stack has been attached. A live effect that was made for the
stack then goes again. All along the subscriptions of other owners stay as they are and in their
order, and in the end those of the custom effects are gone.
-/

set_option autoImplicit false

namespace StatusEffects

variable {π : Type}

/-! ### Subscriptions of other owners -/

def Owner.isCustomOf (effect : EffectName) (serial : Handle) : Owner → Bool
  | .custom name own _ => name = effect && own = serial
  | _ => false

section

variable {own : Owner → Bool} {owner : Owner}

theorem filter_others (mine : own owner = true) (owners : List Owner) :
    (owners.filter (· ≠ owner)).filter (!own ·) = owners.filter (!own ·) := by
  rw [List.filter_filter]
  refine List.filter_congr fun other _ => ?_
  by_cases same : other = owner
  · simp [same, mine]
  · simp [same]

theorem Timers.others_insert (mine : own owner = true) (t : Timers) :
    (t.insert owner).owners.filter (!own ·) = t.owners.filter (!own ·) := by
  unfold insert
  by_cases present : owner ∈ t.owners
  · simp [present]
  · simp [present, mine]

theorem Timers.others_remove (mine : own owner = true) (t : Timers) :
    (t.remove owner).owners.filter (!own ·) = t.owners.filter (!own ·) := by
  unfold remove
  split
  · split
    · rfl
    · rfl
  · exact filter_others mine t.owners

theorem Watchers.others_insert (mine : own owner = true) (w : Watchers) (stat other : StatName) :
    ((w.insert stat owner).get other).filter (!own ·) = (w.get other).filter (!own ·) := by
  unfold insert
  split
  · rfl
  · unfold get
    rw [Table.get?_insert]
    split
    · rename_i same
      simp [same, mine]
    · rfl

theorem Watchers.others_remove (mine : own owner = true) (w : Watchers) (stat : StatName) :
    ((w.remove owner).get stat).filter (!own ·) = (w.get stat).filter (!own ·) := by
  rw [get_remove]
  exact filter_others mine (w.get stat)

end

namespace Entity

/-- Nothing is different but what waits in the pools and which handle is next. -/
structure Unaltered (e e' : Entity π) : Prop where
  values : e'.values = e.values
  modifiers : e'.modifiers = e.modifiers
  effects : e'.effects = e.effects
  timers : e'.timers = e.timers
  watchers : e'.watchers = e.watchers
  modifying : e'.modifying = e.modifying

/-- The subscriptions of all owners but certain ones are the same, in the same order. -/
structure Elsewhere (own : Owner → Bool) (e e' : Entity π) : Prop where
  modifying : e'.modifying = e.modifying
  walks : e'.timers.walks = e.timers.walks
  owners : e'.timers.owners.filter (!own ·) = e.timers.owners.filter (!own ·)
  watchers : ∀ stat, (e'.watchers.get stat).filter (!own ·) = (e.watchers.get stat).filter (!own ·)

variable {e e₁ e₂ e₃ : Entity π}

theorem Unaltered.trans (first : e₁.Unaltered e₂) (second : e₂.Unaltered e₃) : e₁.Unaltered e₃ where
  values := second.values.trans first.values
  modifiers := second.modifiers.trans first.modifiers
  effects := second.effects.trans first.effects
  timers := second.timers.trans first.timers
  watchers := second.watchers.trans first.watchers
  modifying := second.modifying.trans first.modifying

namespace Elsewhere

variable {own : Owner → Bool} {owner : Owner}

theorem trans (first : e₁.Elsewhere own e₂) (second : e₂.Elsewhere own e₃) :
    e₁.Elsewhere own e₃ where
  modifying := second.modifying.trans first.modifying
  walks := second.walks.trans first.walks
  owners := second.owners.trans first.owners
  watchers stat := (second.watchers stat).trans (first.watchers stat)

theorem subscribe (mine : own owner = true) (e : Entity π) (interests : Interests) :
    e.Elsewhere own (e.subscribe owner interests) where
  modifying := rfl
  walks := by
    unfold Entity.subscribe
    dsimp only
    split
    · rfl
    · rfl
  owners := by
    unfold Entity.subscribe
    dsimp only
    split
    · exact Timers.others_insert mine e.timers
    · rfl
  watchers stat := by
    refine List.foldlRecOn (motive := fun w : Watchers =>
      (w.get stat).filter (!own ·) = (e.watchers.get stat).filter (!own ·)) _ _ rfl ?_
    intro w same name _
    rw [Watchers.others_insert mine, same]

theorem unsubscribe (mine : own owner = true) (e : Entity π) :
    e.Elsewhere own (e.unsubscribe owner) where
  modifying := rfl
  walks := Timers.walks_remove e.timers owner
  owners := Timers.others_remove mine e.timers
  watchers stat := Watchers.others_remove mine e.watchers stat

variable [CustomTrigger π]

theorem addEffect (e : Entity π) (live : LiveEffect π) (armed : List (Condition π)) :
    e.Elsewhere (Owner.isCustomOf live.effect live.serial) (e.addEffect live armed) := by
  refine List.foldlRecOn (motive := fun e' => e.Elsewhere (Owner.isCustomOf live.effect live.serial) e')
    armed.zipIdx _ ⟨rfl, rfl, rfl, fun _ => rfl⟩ fun e' before entry _ => ?_
  exact before.trans (subscribe (by simp [Owner.isCustomOf]) e' _)

omit [CustomTrigger π] in
theorem dropEffect (e : Entity π) (effect : EffectName) {live : LiveEffect π}
    (empty : live.held = []) :
    e.Elsewhere (Owner.isCustomOf effect live.serial) (e.dropEffect effect live) := by
  unfold Entity.dropEffect
  rw [empty, List.foldl_nil]
  have customs := List.foldlRecOn
    (motive := fun e' => e.Elsewhere (Owner.isCustomOf effect live.serial) e')
    (List.range live.conditions.length)
    (fun e index => e.unsubscribe (.custom effect live.serial index))
    (b := { e with effects := e.effects.erase effect }) ⟨rfl, rfl, rfl, fun _ => rfl⟩
    fun e' before index _ => before.trans (unsubscribe (by simp [Owner.isCustomOf]) e')
  exact { customs with }

end Elsewhere

/-! ### Effects that go as they came -/

variable [CustomTrigger π] {effect : EffectName}

/-- Nobody waits or watches as a custom effect of an effect that is not live. -/
theorem Attended.deaf (attended : e.Attended) (absent : e.effects.get? effect = none)
    {owner : Owner} {serial : Handle} (custom : owner.isCustomOf effect serial = true)
    (i : Interest) : ¬e.Hears owner i := by
  intro hears
  refine attended.borne owner i hears ?_
  cases owner with
  | modifier stat id => cases custom
  | stack name id => cases custom
  | custom name own index =>
      simp only [Owner.isCustomOf, Bool.and_eq_true, decide_eq_true_eq] at custom
      obtain ⟨rfl, rfl⟩ := custom
      unfold Entity.condition
      dsimp only
      rw [absent]

/-- If only custom effects of an effect that is not live may have come and gone, then the
subscriptions are the same as before. -/
theorem Elsewhere.subscriptions {e' : Entity π} {serial : Handle} (attended : e.Attended)
    (attended' : e'.Attended) (absent : e.effects.get? effect = none)
    (absent' : e'.effects.get? effect = none) (closed : e.timers.walks = 0)
    (elsewhere : e.Elsewhere (Owner.isCustomOf effect serial) e') :
    e'.timers = e.timers ∧ e'.watchers = e.watchers := by
  have waiting {e : Entity π} (attended : e.Attended) (absent : e.effects.get? effect = none)
      (closed : e.timers.walks = 0) :
      e.timers.owners.filter (!Owner.isCustomOf effect serial ·) = e.timers.owners := by
    refine List.filter_eq_self.2 fun owner waits => ?_
    rw [Bool.not_eq_true', Bool.eq_false_iff]
    intro custom
    exact attended.deaf absent custom .time ((attended.booked.timers.mem_owners closed).1 waits)
  have watching {e : Entity π} (attended : e.Attended) (absent : e.effects.get? effect = none)
      (stat : StatName) :
      (e.watchers.get stat).filter (!Owner.isCustomOf effect serial ·) = e.watchers.get stat := by
    refine List.filter_eq_self.2 fun owner watches => ?_
    rw [Bool.not_eq_true', Bool.eq_false_iff]
    intro custom
    exact attended.deaf absent custom (.stat stat) watches
  have closed' : e'.timers.walks = 0 := elsewhere.walks.trans closed
  constructor
  · have owners : e'.timers.owners = e.timers.owners := by
      rw [← waiting attended absent closed, ← waiting attended' absent' closed', elsewhere.owners]
    have leaving : e'.timers.leaving = e.timers.leaving := by
      rw [attended.booked.timers.settled closed, attended'.booked.timers.settled closed']
    calc e'.timers = ⟨e'.timers.owners, e'.timers.leaving, e'.timers.walks⟩ := rfl
      _ = ⟨e.timers.owners, e.timers.leaving, e.timers.walks⟩ := by
        rw [owners, leaving, elsewhere.walks]
  · refine attended'.booked.watchers.ext attended.booked.watchers fun stat => ?_
    rw [← watching attended absent, ← watching attended' absent', elsewhere.watchers]

end Entity

/-! ### Steps of which nobody hears -/

/-- Whether an occurrence is a question to the rules of the game or the end of an effect. Neither
calls anybody. -/
def Occurrence.isUntold : Occurrence π → Bool
  | .consulted .. | .effectRemoved .. => true
  | _ => false

/-- Nothing happened to an entity that anybody could see. -/
structure World.Untouched (w w' : World π) : Prop where
  unaltered : w.entity.Unaltered w'.entity
  running : w'.running = w.running
  untold : ∃ recent, w'.trace = recent ++ w.trace ∧ ∀ o ∈ recent, o.isUntold = true

def World.Releases (w w' : World π) : Prop :=
  ∃ s, w' = { w with entity := w.entity.releaseStack s }

namespace Engine

open Act

variable [CustomTrigger π] {nested : Nested π} {rules : Rulebook π} {d : EffectDefinition π}

theorem pushStack_refused (effect : EffectName) (s : Stack π) (w : World π) :
    (pushStack effect s).Yields w fun outcome w' => outcome.isApplied = false → w.Releases w' :=
  pushStack_cases (fun _ refused => by cases refused) fun _ _ => ⟨s.detach, rfl⟩

theorem pushCapped_refused (effect : EffectName) (s : Stack π) (value : UInt32) (w : World π) :
    (pushCapped effect s value).Yields w
      fun outcome w' => outcome.isApplied = false → w.Releases w' :=
  pushCapped_cases (fun _ _ => ⟨s.detach, rfl⟩) fun _ => pushStack_refused effect _ w

theorem mergeDuration_holds (target : Handle) (s : Stack π) (w : World π) :
    (mergeDuration rules d target s).Yields w fun _ w' =>
      (w'.entity.stack? d.effect target).isSome = (w.entity.stack? d.effect target).isSome := by
  refine mergeDuration_cases (fun _ => rfl) fun c _ _ => ?_
  change ((w.entity.setCondition _ _).stack? _ _).isSome = _
  rw [Entity.stack?_setCondition, Option.isSome_map]

/-- A stack that merges into one that is there is not refused. -/
theorem mergeStack_applied {target : Handle} {w : World π}
    (there : (w.entity.stack? d.effect target).isSome = true) (s : Stack π) :
    (mergeStack nested rules d target s).Yields w fun outcome _ => outcome.isApplied = true := by
  refine mergeStack_cases (fun w₂ => (w₂.entity.stack? d.effect target).isSome = true) ?merges
    (fun w₂ still absent => ?absent) (fun _ _ _ _ _ _ _ _ => rfl) fun _ _ _ _ _ _ _ _ _ _ _ => rfl
  case merges => exact (mergeDuration_holds target s w).mono fun _ _ same => same.trans there
  case absent =>
    rw [absent] at still
    cases still

theorem placeStack_refused (s : Stack π) (w : World π) :
    (placeStack nested rules d s).Yields w
      fun outcome w' => outcome.isApplied = false → w.Releases w' := by
  refine placeStack_cases (fun _ _ _ => ⟨s.detach, rfl⟩) (fun _ => pushStack_refused d.effect s w)
    (fun _ _ _ => pushCapped_refused d.effect s _ w)
    (fun _ _ _ _ => pushCapped_refused d.effect s _ w) fun target _ first => ?_
  have there : (w.entity.stack? d.effect target).isSome = true := by
    obtain ⟨live, lives, sourceless⟩ := Option.bind_eq_some_iff.1 first
    obtain ⟨other, found, rfl⟩ := Option.map_eq_some_iff.1 sourceless
    rw [Entity.stack?, lives, Option.bind_some, LiveEffect.stack?, List.find?_isSome]
    exact ⟨other, List.mem_of_find?_eq_some found, decide_eq_true rfl⟩
  refine (mergeStack_applied there s).mono fun outcome w' applied refused => ?_
  rw [applied] at refused
  cases refused

/-! ### Effects that go again -/

omit [CustomTrigger π] in
/-- An effect that was just made live and holds nothing goes again, and nobody hears of it. -/
theorem removeIfEmpty_untold {effect : EffectName} {live : LiveEffect π} {w : World π}
    (found : w.entity.effects.get? effect = some live) (empty : live.held = [])
    (idle : live.active = false) (unclaimed : w.entity.Unclaimed effect) :
    (removeIfEmpty nested rules effect).Yields w fun _ w' => w' = { w with
      entity := w.entity.dropEffect effect live
      trace := .effectRemoved effect (w.entity.dropEffect effect live) :: w.trace } := by
  have modifiers := (Entity.dropEffect_stats w.entity effect live).2
  refine removeIfEmpty_cases (fun filled => absurd empty (filled live found)) fun _ _ _ => ?_
  refine removeLive_cases (fun absent => ?_) fun live' there removed w' ends => ?_
  · rw [found] at absent
    cases absent
  · rw [found] at there
    cases there
    rw [removeModifiersOf_unclaimed (unclaimed.of_same modifiers)] at ends
    cases ends
    refine ⟨fun _ => rfl, fun active => ?_⟩
    rw [idle] at active
    cases active

end Engine

namespace Entity

variable [CustomTrigger π]

def enliven (e : Entity π) (effect : EffectName) (armed : List (Condition π)) : Entity π :=
  e.acquireEffect.2.addEffect { e.acquireEffect.1 with effect := effect } armed

variable {e : Entity π} {effect : EffectName} {armed : List (Condition π)}

theorem get?_enliven (name : EffectName) : (e.enliven effect armed).effects.get? name =
    if name = effect then
      some { e.acquireEffect.1 with
        effect := effect
        conditions := e.acquireEffect.1.conditions ++ armed }
    else e.effects.get? name := by
  unfold enliven
  rw [addEffect_effects, Table.get?_insert]
  rfl

/-- An effect that goes as soon as it was made live, whatever was put into the pool meanwhile, leaves
everything as it was. -/
theorem unaltered_enliven (rules : Rulebook π) (attended : e.Attended) (closed : e.timers.walks = 0)
    (absent : e.effects.get? effect = none) (s : Stack π) {live : LiveEffect π}
    (found : (e.enliven effect armed).effects.get? effect = some live) :
    e.Unaltered (((e.enliven effect armed).takeHandle.2.releaseStack s).dropEffect effect live) := by
  let e₁ := (e.enliven effect armed).takeHandle.2.releaseStack s
  have blank := attended.tidy.acquireEffect_fst
  rw [get?_enliven, if_pos rfl, blank] at found
  have empty : live.held = [] := by
    cases found
    rfl
  have serial : live.serial = e.nextHandle := by
    cases found
    rfl
  obtain ⟨values, modifiers⟩ := addEffect_stats e.acquireEffect.2
    { e.acquireEffect.1 with effect := effect } armed
  obtain ⟨values', modifiers'⟩ := dropEffect_stats e₁ effect live
  have effects : (e₁.dropEffect effect live).effects = e.effects := by
    refine Table.ext_get? fun name => ?_
    rw [dropEffect_effects, Table.get?_erase]
    change (if name = effect then none else (e.enliven effect armed).effects.get? name) = _
    rw [get?_enliven]
    split
    · rename_i same
      rw [same, absent]
    · rfl
  have attended₁ : e₁.Attended := by
    have contained : e.effects.contains effect = false := by
      unfold Table.contains
      rw [absent]
      rfl
    have taken : (e.enliven effect armed).Move rules [] [] (e.enliven effect armed).takeHandle.2 :=
      .takeHandle
    have released : (e.enliven effect armed).takeHandle.2.Move rules [] [] e₁ := .releaseStack s
    exact released.attended (taken.attended (attended.addEffect contained armed))
  have attended' : (e₁.dropEffect effect live).Attended := attended₁.dropEffect (by
    change (e.enliven effect armed).effects.get? effect = _
    rw [get?_enliven, if_pos rfl, blank, found])
  have elsewhere : e.Elsewhere (Owner.isCustomOf effect e.nextHandle)
      (e₁.dropEffect effect live) := by
    have made : e.Elsewhere (Owner.isCustomOf effect e.nextHandle) (e.enliven effect armed) :=
      { Elsewhere.addEffect e.acquireEffect.2 { e.acquireEffect.1 with effect := effect } armed with }
    have gone := Elsewhere.dropEffect e₁ effect empty
    rw [serial] at gone
    exact made.trans { gone with }
  obtain ⟨timers, watchers⟩ := elsewhere.subscriptions attended attended' absent
    (by rw [effects, absent]) closed
  exact ⟨values'.trans values, modifiers'.trans modifiers, effects, timers, watchers,
    elsewhere.modifying⟩

end Entity

/-! ### Additions -/

namespace World

variable {w w₁ w₂ : World π}

theorem Untouched.of_entity {e : Entity π} (unaltered : w.entity.Unaltered e) :
    w.Untouched { w with entity := e } :=
  ⟨unaltered, rfl, [], rfl, List.forall_mem_nil _⟩

theorem Untouched.trans (first : w.Untouched w₁) (second : w₁.Untouched w₂) : w.Untouched w₂ := by
  obtain ⟨before, grown, untold⟩ := first.untold
  obtain ⟨after, grown', untold'⟩ := second.untold
  refine ⟨first.unaltered.trans second.unaltered, second.running.trans first.running, after ++ before, ?_,
    List.forall_mem_append.2 ⟨untold', untold⟩⟩
  rw [grown', grown, List.append_assoc]

end World

namespace Engine

open Act

variable [CustomTrigger π] {nested : Nested π} {rules : Rulebook π} {d : EffectDefinition π}

theorem ensureLive_contains (w : World π) : (ensureLive rules d).Yields w
    fun _ w' => w'.entity.effects.contains d.effect = true := by
  refine ensureLive_cases id fun _ => ?_
  unfold Table.contains
  rw [Entity.addEffect_effects, Table.get?_insert_self]
  rfl

/-- A stack of a source is never refused. -/
theorem addStackOf_applied {s : Stack π} (loose : s.attached = true → s.isSourced = true)
    (source : SourceTag) (w : World π) : (addStackOf nested rules d s (some source)).Yields w
      fun outcome _ => outcome.isApplied = true := by
  refine addStackOf_cases (fun _ outcome _ => outcome.isApplied = true) ?places
    (fun _ _ _ applied _ _ _ _ _ _ _ => applied) (fun _ _ applied _ => applied)
    fun _ _ applied _ _ _ _ => applied
  refine (ensureLive_contains w).mono fun created w₁ lives s' attached _ => ?_
  have sourced : s'.isSourced = true := by
    rw [← attached]
    unfold Stack.attach
    split
    · exact loose ‹_›
    · rfl
  rw [placeStack_of_sourced sourced]
  refine pushStack_cases (fun _ => rfl) fun missing => ?_
  exact Bool.noConfusion (lives.symm.trans missing)

theorem addStackOf_refused (s : Stack π) (source : Option SourceTag) {w : World π}
    (attended : w.entity.Attended) (closed : w.entity.timers.walks = 0)
    (unclaimed : w.entity.effects.get? d.effect = none → w.entity.Unclaimed d.effect) :
    (addStackOf nested rules d s source).Yields w
      fun outcome w' => outcome.isApplied = false → w.Untouched w' := by
  refine addStackOf_cases (fun created outcome w₂ => outcome.isApplied = false →
      (created = false → w.Untouched w₂) ∧ (created = true →
        (removeIfEmpty nested rules d.effect).Yields w₂ fun _ w' => w.Untouched w'))
    ?places (fun created outcome w₂ _ applied => ?settles)
    (fun outcome w₂ left refused _ => (left refused).1 rfl)
    fun outcome w₂ left refused => ?empties
  case settles =>
    intro _ _ _ _ _ _ refused
    rw [applied] at refused
    cases refused
  case empties => exact ((left refused).2 rfl).mono fun _ _ untouched _ => untouched
  refine ensureLive_cases (fun _ s' _ _ => ?lives) fun missing s' _ _ => ?begins
  case lives =>
    refine (placeStack_refused s' _).mono fun outcome w₂ releases refused => ⟨fun _ => ?_, nofun⟩
    obtain ⟨s'', rfl⟩ := releases refused
    exact ⟨⟨rfl, rfl, rfl, rfl, rfl, rfl⟩, rfl, [_], rfl, List.forall_mem_singleton.2 rfl⟩
  case begins =>
    have found : w.entity.effects.get? d.effect = none :=
      Option.isNone_iff_eq_none.1 (Option.isSome_eq_false_iff.1 missing)
    generalize d.customEffects.map (fun custom =>
      custom.condition.pristine.arm (rules.readings w.entity.acquireEffect.2)) = armed
    change ((placeStack nested rules d _).Yields { w with
      entity := (w.entity.enliven d.effect armed).takeHandle.2, trace := _ } _)
    refine (placeStack_refused s' _).mono fun outcome w₂ releases refused => ⟨nofun, fun _ => ?_⟩
    obtain ⟨s'', rfl⟩ := releases refused
    have lives : (w.entity.enliven d.effect armed).effects.get? d.effect = some _ :=
      (Entity.get?_enliven d.effect).trans (if_pos rfl)
    rw [attended.tidy.acquireEffect_fst] at lives
    have modifiers : (w.entity.enliven d.effect armed).modifiers = w.entity.modifiers :=
      (Entity.addEffect_stats ..).2
    refine (removeIfEmpty_untold lives rfl rfl ((unclaimed found).of_same modifiers)).mono
      fun _ w₃ gone => ?_
    rw [gone]
    exact ⟨Entity.unaltered_enliven rules attended closed found s'' lives, rfl, [_, _, _], rfl,
      by simp [Occurrence.isUntold]⟩

theorem addStack_refused (effect : EffectName) (s : Stack π) (source : Option SourceTag) {w : World π}
    (attended : w.entity.Attended) (closed : w.entity.timers.walks = 0)
    (unclaimed : w.entity.effects.get? effect = none → w.entity.Unclaimed effect) :
    (addStack nested rules effect s source).Yields w fun reply w' =>
      (∀ outcome, reply = .ok outcome → outcome.isApplied = false) → w.Untouched w' := by
  refine addStack_cases (fun _ _ => .of_entity ⟨rfl, rfl, rfl, rfl, rfl, rfl⟩) fun d _ named => ?_
  subst named
  exact (addStackOf_refused s source attended closed unclaimed).mono
    fun outcome w' refused none => refused (none outcome rfl)

theorem insertModifier_refused (m : Modifier π) (source : Option SourceTag) (w : World π) :
    (insertModifier nested rules m source).Yields w
      fun outcome w' => outcome.isApplied = false → w.Untouched w' := by
  refine insertModifier_cases (fun m' _ _ _ _ => ?_) fun m' _ _ _ _ w' _ refused => ?_
  · exact ⟨⟨rfl, rfl, rfl, rfl, rfl, rfl⟩, rfl, [_], rfl, List.forall_mem_singleton.2 rfl⟩
  · cases refused

end Engine

/-! ### Refused calls -/

def Call.aim? : Call π → Option EffectName
  | .addStack effect .. | .replaceStack effect .. => some effect
  | .addModifier m _ => some m.stat
  | _ => none

/-- Whether the reply to an addition says that nothing was added. -/
def Call.Refused : (c : Call π) → c.Reply → Prop
  | .addStack .., reply => ∀ outcome, reply = .ok outcome → outcome = .discarded
  | .replaceStack .., reply => ∀ outcome, reply = .ok outcome → outcome = .discarded
  | .addModifier .., outcome => outcome = .discarded
  | _, _ => False

/-- A call takes out the stacks of a source for a stack that its caller has attached without a
source, so that it may be refused. -/
def Call.Displaces (e : Entity π) : Call π → Prop
  | .replaceStack effect s (some source) => s.attached = true ∧ s.isSourced = false ∧
      ∃ live, e.effects.get? effect = some live ∧ live.stacksOf source ≠ []
  | _ => False

namespace Engine

open Act

variable [CustomTrigger π] {nested : Nested π} {rules : Rulebook π}

theorem removeStacksOf_nothing {effect : EffectName} {source : SourceTag} {w : World π}
    (nothing : ∀ live, w.entity.effects.get? effect = some live → live.stacksOf source = []) :
    (removeStacksOf nested rules effect source).Yields w fun _ w' => w' = w := by
  refine removeStacksOf_cases (fun _ => rfl) fun live found some => ?_
  rw [nothing live found] at some
  exact absurd some (Nat.lt_irrefl 0)

theorem replaceStack_refused (effect : EffectName) (s : Stack π) (source : Option SourceTag)
    {w : World π} (attended : w.entity.Attended) (closed : w.entity.timers.walks = 0)
    (unclaimed : w.entity.effects.get? effect = none → w.entity.Unclaimed effect)
    (stays : ¬(Call.replaceStack effect s source).Displaces w.entity) :
    (replaceStack nested rules effect s source).Yields w fun reply w' =>
      (∀ outcome, reply = .ok outcome → outcome.isApplied = false) → w.Untouched w' := by
  refine replaceStack_cases (fun _ _ => .of_entity ⟨rfl, rfl, rfl, rfl, rfl, rfl⟩)
    (fun ownerless _ => ?_) fun tag owned registered => ?_
  · subst ownerless
    exact addStack_refused effect s none attended closed unclaimed
  subst owned
  by_cases loose : s.attached = true → s.isSourced = true
  · intro _ w₁ _
    refine addStack_cases (fun unknown => ?_) fun d _ _ => ?_
    · rw [Table.contains, unknown] at registered
      cases registered
    · refine (addStackOf_applied loose tag w₁).mono fun outcome w' applied refused => ?_
      rw [refused outcome rfl] at applied
      cases applied
  · rw [Classical.not_imp, Bool.not_eq_true] at loose
    have nothing (live : LiveEffect π) (lives : w.entity.effects.get? effect = some live) :
        live.stacksOf tag = [] :=
      Classical.byContradiction fun some => stays ⟨loose.1, loose.2, live, lives, some⟩
    refine (removeStacksOf_nothing nothing).mono fun _ w₁ same => ?_
    subst same
    exact addStack_refused effect s (some tag) attended closed unclaimed

theorem addModifier_refused (m : Modifier π) (source : Option SourceTag) {w : World π}
    (attended : w.entity.Attended) (closed : w.entity.timers.walks = 0)
    (unclaimed : w.entity.effects.get? m.stat = none → w.entity.Unclaimed m.stat) :
    (addModifier nested rules m source).Yields w
      fun outcome w' => outcome.isApplied = false → w.Untouched w' := by
  refine addModifier_cases (insertModifier_refused m source w) fun d _ named => ?_
  rw [← named] at unclaimed
  have acquired : w.entity.Move rules [] [] w.entity.acquireStack.2 := .acquireStack
  have released : w.entity.acquireStack.2.Move rules [] []
      (w.entity.acquireStack.2.releaseModifier m) := .releaseModifier m
  have unaltered : w.entity.Unaltered (w.entity.acquireStack.2.releaseModifier m) :=
    ⟨rfl, rfl, rfl, rfl, rfl, rfl⟩
  let w₁ : World π := { w with entity := w.entity.acquireStack.2.releaseModifier m }
  have attended₁ : w₁.entity.Attended := released.attended (acquired.attended attended)
  exact (addStackOf_refused _ source attended₁ closed unclaimed).mono fun outcome w' refused none =>
    (World.Untouched.of_entity unaltered).trans (refused none)

end Engine

section

variable [CustomTrigger π] {rules : Rulebook π} {snapshots : Snapshot → Prop}
  {calls : Entity π → Call π → Prop} {states : List (Entity π)} {w : World π}

/-- At no moment of a run outside a passage of time does an addition that is refused change anything
but the pools and the next handle, and nobody hears of it. A game may not keep modifiers under the
name of an effect that is not live, since they would go with the effect that is made for the
addition. Nor may it attach a stack to nobody before it hands the stack over in place of those of a
source: attached stacks stay as they are, so that such a one can be refused. -/
theorem refused_additions_untouched (chronicle : Chronicle rules snapshots calls states w) :
    ∀ e ∈ states, e.timers.walks = 0 → ∀ (c : Call π) effect, c.aim? = some effect →
      (e.effects.contains effect = false → e.Unclaimed effect) → ¬c.Displaces e →
      ∀ (nested : Nested π) (w : World π) reply w', w.entity = e →
        Engine.performWith nested rules c w = .ok reply w' → c.Refused reply → w.Untouched w' := by
  rintro e listed closed c effect aims unclaimed stays nested w reply w' rfl returns refused
  have attended := (chronicle.numbered w.entity listed).attended
  have vacant (absent : w.entity.effects.get? effect = none) : w.entity.Unclaimed effect := by
    refine unclaimed ?_
    unfold Table.contains
    rw [absent]
    rfl
  cases c with
  | addStack name s source =>
      cases aims
      exact Engine.addStack_refused effect s source attended closed vacant reply w' returns
        fun outcome ok => by rw [refused outcome ok, Outcome.isApplied]
  | replaceStack name s source =>
      cases aims
      exact Engine.replaceStack_refused effect s source attended closed vacant stays reply w' returns
        fun outcome ok => by rw [refused outcome ok, Outcome.isApplied]
  | addModifier m source =>
      cases aims
      exact Engine.addModifier_refused m source attended closed vacant reply w' returns (by
        change reply = .discarded at refused
        rw [refused, Outcome.isApplied])
  | _ => cases aims

end

/-- An empty stack makes an effect live whose custom effect watches health, and is refused. -/
theorem vigil_refused : ∃ (states : List (Entity Empty)) (w w' : World Empty),
    Chronicle vigilRules (fun _ => True) (fun _ _ => True) states w ∧
    w.entity.hasEffect "guard" = true ∧
    Engine.perform vigilRules 8 (.addStack "vigil" (.ofValue 0) none) w =
      .ok (.ok .discarded) w' ∧
    w.entity.nextHandle < w'.entity.nextHandle ∧ w.Untouched w' := by
  have made : ((Engine.performAll vigilRules 8 [.addStack "guard" (.ofValue 1) none]
      (.ofEntity .new)).any fun w => w.entity.hasEffect "guard" && w.entity.timers.walks = 0 &&
        w.entity.modifiers.toList.all (fun m => m.source ≠ some (SourceTag.ofEffect "vigil")) &&
        match Engine.perform vigilRules 8 (.addStack "vigil" (.ofValue 0) none) w with
        | .ok reply w' => reply = .ok .discarded && w.entity.nextHandle < w'.entity.nextHandle
        | .error _ _ => false) = true := by
    decide +kernel
  obtain ⟨w, run, checked⟩ := (Option.any_eq_true ..).1 made
  simp only [Bool.and_eq_true, decide_eq_true_eq, List.all_eq_true] at checked
  obtain ⟨⟨⟨active, closed⟩, foreign⟩, refused⟩ := checked
  obtain ⟨_, returns⟩ := Engine.perform_of_performAll run
  have start : Chronicle vigilRules (fun _ => True) (fun _ _ => True) [.new] (.ofEntity .new) := .new
  obtain ⟨shown, chronicle⟩ := start.extend trivial returns
  have unclaimed : w.entity.Unclaimed "vigil" := fun stat m listed =>
    foreign m (ModifierLists.mem_toList.2 ⟨stat, listed⟩)
  split at refused
  · rename_i reply w' adds
    rw [Bool.and_eq_true, decide_eq_true_eq, decide_eq_true_eq] at refused
    obtain ⟨rfl, later⟩ := refused
    exact ⟨_, w, w', chronicle, active, adds, later,
      refused_additions_untouched chronicle w.entity (by simp) closed
        (.addStack "vigil" (.ofValue 0) none) "vigil" rfl (fun _ => unclaimed) id
        (Engine.serve vigilRules 8) w _ w' rfl adds fun outcome ok => by cases ok; rfl⟩
  · cases refused

/-- A stack whose time is up, which its caller has attached to nobody. -/
def spentStack : Stack Empty :=
  Stack.attach { (Stack.ofValue 1 : Stack Empty) with duration := .timed 0 }
    (vigilRules.readings .new) none

/-- Handed over in place of the stack of an item it is refused, but by then the stack of the item has
gone and its effect with it. -/
theorem spent_stack_displaces : ∃ (states : List (Entity Empty)) (w w' : World Empty),
    Chronicle vigilRules (fun _ => True) (fun _ _ => True) states w ∧ w.entity ∈ states ∧
    w.entity.timers.walks = 0 ∧ w.entity.effects.contains "guard" = true ∧
    Engine.perform vigilRules 8 (.replaceStack "guard" spentStack (some "item")) w =
      .ok (.ok .discarded) w' ∧
    w'.entity.effects.contains "guard" = false ∧ ¬w.Untouched w' := by
  have made : ((Engine.performAll vigilRules 8 [.addStack "guard" (.ofValue 1) (some "item")]
      (.ofEntity .new)).any fun w =>
        w.entity.timers.walks = 0 && w.entity.effects.contains "guard" &&
        match Engine.perform vigilRules 8 (.replaceStack "guard" spentStack (some "item")) w with
        | .ok reply w' => reply = .ok .discarded && !w'.entity.effects.contains "guard"
        | .error _ _ => false) = true := by
    decide +kernel
  obtain ⟨w, run, checked⟩ := (Option.any_eq_true ..).1 made
  simp only [Bool.and_eq_true, decide_eq_true_eq] at checked
  obtain ⟨⟨closed, live⟩, displaced⟩ := checked
  obtain ⟨_, returns⟩ := Engine.perform_of_performAll run
  have start : Chronicle vigilRules (fun _ => True) (fun _ _ => True) [.new] (.ofEntity .new) := .new
  obtain ⟨shown, chronicle⟩ := start.extend trivial returns
  split at displaced
  · rename_i reply w' replaces
    rw [Bool.and_eq_true, decide_eq_true_eq, Bool.not_eq_true'] at displaced
    obtain ⟨rfl, gone⟩ := displaced
    refine ⟨_, w, w', chronicle, by simp, closed, live, replaces, gone, fun untouched => ?_⟩
    rw [untouched.unaltered.effects, live] at gone
    cases gone
  · cases displaced

end StatusEffects
