import StatusEffects.Proofs.Mirroring
import StatusEffects.Proofs.Run
import StatusEffects.Proofs.StackCaps

/-!
Live effects are settled whenever an outermost call comes back, and no observer ever sees stacks
over their cap.

Between a change to the stacks of an effect and its next settling, the count of that one effect may
be out of date. No hook runs in that gap, so nested calls always begin with every count up to date.
A settling that finds its effect changed by a nested one leaves the rest to it; that this is sound
rests on nested steps never leaving more unfinished than they found.
-/

set_option autoImplicit false

namespace StatusEffects

variable {π : Type}

namespace Entity

def Stocked (rules : Rulebook π) (e : Entity π) : Prop :=
  ∀ name live, e.effects.get? name = some live →
    ∃ d, rules.effects.get? name = some d ∧ live.Stocked d

/-- An instance of an effect is live that still has to be drained or removed. -/
def Unfinished (e : Entity π) (name : EffectName) (serial : Handle) : Prop :=
  ∃ live, e.effects.get? name = some live ∧ live.serial = serial ∧ ¬live.Finished

def Alike (e e' : Entity π) : Prop :=
  ∀ name, (e'.effects.get? name).map LiveEffect.outline =
    (e.effects.get? name).map LiveEffect.outline

theorem Alike.of_effects {e e' : Entity π} (same : e'.effects = e.effects) : e.Alike e' := by
  intro name
  rw [same]

theorem Alike.find {e e' : Entity π} (alike : e.Alike e') {name : EffectName}
    {live' : LiveEffect π} (found : e'.effects.get? name = some live') :
    ∃ live, e.effects.get? name = some live ∧ live.outline = live'.outline := by
  have outlines := alike name
  rw [found, Option.map_some] at outlines
  exact Option.map_eq_some_iff.1 outlines.symm

theorem Alike.stocked {rules : Rulebook π} {e e' : Entity π} (alike : e.Alike e')
    (stocked : e.Stocked rules) : e'.Stocked rules := by
  intro name live' found
  obtain ⟨live, there, same⟩ := alike.find found
  obtain ⟨d, registered, inOrder⟩ := stocked name live there
  exact ⟨d, registered, inOrder.of_outline same⟩

theorem Alike.unfinished {e e' : Entity π} (alike : e.Alike e') {name : EffectName}
    {serial : Handle} (unfinished : e'.Unfinished name serial) : e.Unfinished name serial := by
  obtain ⟨live', found, rfl, open'⟩ := unfinished
  obtain ⟨live, there, same⟩ := alike.find found
  exact ⟨live, there, (congrArg LiveEffect.serial same :),
    fun finished => open' (finished.of_outline same)⟩

theorem Alike.trans {e₁ e₂ e₃ : Entity π} (first : e₁.Alike e₂) (second : e₂.Alike e₃) :
    e₁.Alike e₃ :=
  fun name => (second name).trans (first name)

/-- A stack that is found is found in an alike entity too, but for its duration. -/
theorem Alike.stack? {e e' : Entity π} (alike : e.Alike e') {effect : EffectName} {id : Handle}
    {s' : Stack π} (found : e'.stack? effect id = some s') :
    ∃ s, e.stack? effect id = some s ∧ s.outline = s'.outline := by
  obtain ⟨live', there', stack'⟩ := Option.bind_eq_some_iff.1 found
  obtain ⟨live, there, same⟩ := alike.find there'
  have held : live.held.map Stack.outline = live'.held.map Stack.outline :=
    (congrArg LiveEffect.held same :)
  have look (other : LiveEffect π) : (other.held.map Stack.outline).find? (fun s => s.id = id) =
      (other.stack? id).map Stack.outline := List.find?_map ..
  have outlines := look live
  rw [held, look live', stack', Option.map_some] at outlines
  obtain ⟨s, stack, equal⟩ := Option.map_eq_some_iff.1 outlines.symm
  exact ⟨s, by rw [Entity.stack?, there, Option.bind_some, stack], equal⟩

theorem Alike.sourceless {e e' : Entity π} (alike : e.Alike e') {effect : EffectName} {id : Handle}
    {s' : Stack π} (first : ∃ s, e.stack? effect id = some s ∧ s.isSourced = false)
    (found : e'.stack? effect id = some s') : s'.isSourced = false := by
  obtain ⟨s, there, outline⟩ := alike.stack? found
  obtain ⟨_, there', sourceless⟩ := first
  rw [there] at there'
  cases there'
  exact (congrArg Stack.isSourced outline :).symm.trans sourceless

theorem Alike.setCondition (e : Entity π) (owner : Owner) (c : Condition π) :
    e.Alike (e.setCondition owner c) := by
  have modified (effect : EffectName) (change : LiveEffect π → LiveEffect π)
      (same : ∀ live, (change live).outline = live.outline) : e.Alike (e.modifyEffect effect change) := by
    intro name
    rw [get?_modifyEffect]
    split
    · rw [Option.map_map]
      congr 1
      exact funext same
    · rfl
  cases owner with
  | modifier stat id => exact .of_effects rfl
  | stack effect id =>
      apply modified
      intro live
      unfold LiveEffect.outline LiveEffect.modifyStack
      dsimp only
      rw [map_modifyFirst]
      exact fun _ _ => rfl
  | custom effect serial index =>
      apply modified
      intro live
      split
      · rfl
      · rfl

def OnlyAt (e : Entity π) (effect : EffectName) (live : LiveEffect π) (e' : Entity π) : Prop :=
  ∀ name, e'.effects.get? name = if name = effect then some live else e.effects.get? name

theorem OnlyAt.found {effect : EffectName} {live : LiveEffect π} {e e' : Entity π}
    (only : e.OnlyAt effect live e') : e'.effects.get? effect = some live := by
  rw [only effect, if_pos rfl]

theorem OnlyAt.unfinished {effect : EffectName} {live : LiveEffect π} {e e' : Entity π}
    (only : e.OnlyAt effect live e') {name : EffectName} {serial : Handle} (other : name ≠ effect)
    (unfinished : e'.Unfinished name serial) : e.Unfinished name serial := by
  obtain ⟨found, there, rest⟩ := unfinished
  rw [only name, if_neg other] at there
  exact ⟨found, there, rest⟩

theorem OnlyAt.modify {effect : EffectName} {live : LiveEffect π} {e e' : Entity π}
    (found : e.effects.get? effect = some live) {change : LiveEffect π → LiveEffect π}
    (modified : e'.effects = e.effects.modify effect change) :
    e.OnlyAt effect (change live) e' := by
  intro name
  rw [modified, Table.get?_modify]
  split
  · rename_i same
    rw [same, found, Option.map_some]
  · rfl

end Entity

theorem LiveEffect.Tallied.idle {rules : Rulebook π} {name : EffectName} {live : LiveEffect π}
    (tallied : live.Tallied rules name) (unfinished : ¬live.Finished) :
    live.count = 0 ∧ live.active = false := by
  have zero : live.count = 0 := by
    by_contra some
    refine unfinished ⟨fun empty => some ?_, fun zero => absurd zero some⟩
    have count := tallied.count
    rw [LiveEffect.activeSum_eq, empty] at count
    exact UInt32.toNat_inj.1 count
  refine ⟨zero, ?_⟩
  cases active : live.active with
  | false => rfl
  | true => exact absurd zero (tallied.counts active)

/-! ### Sound worlds -/

/-- When a stack without a source joins stacks which stay apart, the count is up to date, and the sum
of the active stacks stays within the limit. -/
def Occurrence.WithinRoom (rules : Rulebook π) : Occurrence π → Prop
  | .stackPushed effect s seen => ∀ d live, rules.effects.get? effect = some d →
      seen.effects.get? effect = some live → d.stacking = .separate → s.isSourced = false →
      0 < s.value ∧ live.count.toNat = live.activeSum ∧ s.value.toNat + live.activeSum ≤ d.limit
  | _ => True

/-- The effects that may not be counted yet when something happens: the one whose stacks a notice is
about, and any effect while the rules are asked. -/
def Occurrence.Uncounted : Occurrence π → EffectName → Prop
  | .stacksChanged effect _, name => name = effect
  | .consulted _, _ => True
  | _, _ => False

def Entity.CountedBut (stale : EffectName → Prop) (e : Entity π) : Prop :=
  ∀ name live, ¬stale name → e.effects.get? name = some live → live.count.toNat = live.activeSum

/-- Whoever saw the entity saw stacks within their caps, and counts up to date but for the effects
that were to be counted. -/
structure Occurrence.Capped (rules : Rulebook π) (o : Occurrence π) : Prop where
  seen : ∀ e, o.seen? = some e → e.Stocked rules
  counted : ∀ e, o.seen? = some e → e.CountedBut o.Uncounted
  pushed : o.WithinRoom rules

def World.Sourced (w : World π) (effect : EffectName) : Prop :=
  ∃ s seen, .stackPushed effect s seen ∈ w.trace ∧ s.isSourced = true

/-- The bookkeeping is in order; the counts of some effects may be out of date. -/
structure SoundBut (rules : Rulebook π) (stale : EffectName → Prop) (w : World π) : Prop where
  tidy : w.entity.Tidy
  stocked : w.entity.Stocked rules
  sourced : ∀ name live, w.entity.effects.get? name = some live → live.Sourced → w.Sourced name
  tallied : ∀ name live, ¬stale name → w.entity.effects.get? name = some live →
    live.Tallied rules name
  trace : ∀ o ∈ w.trace, o.Capped rules

abbrev Sound (rules : Rulebook π) (w : World π) : Prop := SoundBut rules (fun _ => False) w

variable {rules : Rulebook π} {stale : EffectName → Prop} {w : World π}

theorem SoundBut.mono {more : EffectName → Prop} (sound : SoundBut rules stale w)
    (le : ∀ name, stale name → more name) : SoundBut rules more w :=
  { sound with tallied := fun name live fresh => sound.tallied name live fun was => fresh (le name was) }

theorem SoundBut.alike (sound : SoundBut rules stale w) {e : Entity π} (tidy : e.Tidy)
    (alike : w.entity.Alike e) : SoundBut rules stale { w with entity := e } where
  tidy := tidy
  stocked := alike.stocked sound.stocked
  sourced name live found source := by
    obtain ⟨before, there, same⟩ := alike.find found
    exact sound.sourced name before there (source.of_outline same)
  tallied name live fresh found := by
    obtain ⟨before, there, same⟩ := alike.find found
    exact (sound.tallied name before fresh there).of_outline same
  trace := sound.trace

theorem World.Sourced.push {effect : EffectName} (sourced : w.Sourced effect) (o : Occurrence π) :
    World.Sourced { w with trace := o :: w.trace } effect := by
  obtain ⟨s, seen, member, source⟩ := sourced
  exact ⟨s, seen, List.mem_cons_of_mem _ member, source⟩

theorem SoundBut.push (sound : SoundBut rules stale w) {o : Occurrence π} (capped : o.Capped rules) :
    SoundBut rules stale { w with trace := o :: w.trace } where
  tidy := sound.tidy
  stocked := sound.stocked
  sourced name live found source := (sound.sourced name live found source).push o
  tallied := sound.tallied
  trace other member := by
    rcases List.mem_cons.1 member with rfl | before
    · exact capped
    · exact sound.trace other before

/-- One effect may come into another state that keeps to its definition. -/
theorem SoundBut.put (sound : SoundBut rules stale w) {stale' : EffectName → Prop}
    {effect : EffectName} {live : LiveEffect π} {e : Entity π} (tidy : e.Tidy)
    (only : w.entity.OnlyAt effect live e)
    (others : ∀ name, name ≠ effect → stale name → stale' name)
    (stocked : ∃ d, rules.effects.get? effect = some d ∧ live.Stocked d)
    (sourced : live.Sourced → w.Sourced effect)
    (tallied : ¬stale' effect → live.Tallied rules effect) :
    SoundBut rules stale' { w with entity := e } where
  tidy := tidy
  stocked name other there := by
    rw [only name] at there
    split at there
    · rename_i same
      cases there
      rw [same]
      exact stocked
    · exact sound.stocked name other there
  sourced name other there source := by
    rw [only name] at there
    split at there
    · rename_i same
      cases there
      rw [same]
      exact sourced source
    · exact sound.sourced name other there source
  tallied name other fresh there := by
    rw [only name] at there
    split at there
    · rename_i same
      cases there
      rw [same] at fresh ⊢
      exact tallied fresh
    · rename_i different
      exact sound.tallied name other (fun was => fresh (others name different was)) there
  trace := sound.trace

theorem SoundBut.counted (sound : SoundBut rules stale w) : w.entity.CountedBut stale :=
  fun name live fresh found => (sound.tallied name live fresh found).count

theorem capped_of_sees (sound : SoundBut rules stale w) {o : Occurrence π}
    (sees : ∀ seen, o.seen? = some seen → seen = w.entity)
    (uncounted : ∀ name, stale name → o.Uncounted name) (room : o.WithinRoom rules) :
    o.Capped rules where
  seen seen same := by
    rw [sees seen same]
    exact sound.stocked
  counted seen same name live fresh found := by
    rw [sees seen same] at found
    exact sound.counted name live (fun was => fresh (uncounted name was)) found
  pushed := room

theorem withinRoom_of_plain {o : Occurrence π} (plain : o.isPlain = true) : o.WithinRoom rules := by
  cases o with
  | stackPushed effect s seen => cases plain
  | _ => trivial

theorem withinRoom_of_time {o : Occurrence π} (ofTime : o.isOfTime = true) : o.WithinRoom rules := by
  cases o with
  | stackPushed effect s seen => cases ofTime
  | _ => trivial

theorem SoundBut.mark (sound : SoundBut rules stale w) {mark : Entity π → Occurrence π}
    (plain : Act.Plain mark) (uncounted : ∀ name, stale name → (mark w.entity).Uncounted name) :
    SoundBut rules stale { w with trace := mark w.entity :: w.trace } :=
  sound.push (capped_of_sees sound (plain w.entity).2 uncounted
    (withinRoom_of_plain (plain w.entity).1))

def Still (rules : Rulebook π) (w w' : World π) : Prop :=
  Sound rules w → Sound rules w' ∧ w.entity.Alike w'.entity

/-- A step keeps the bookkeeping in order and leaves nothing unfinished but what it found so. -/
def Orderly (rules : Rulebook π) (w w' : World π) : Prop :=
  Sound rules w → Sound rules w' ∧
    ∀ name serial, w'.entity.Unfinished name serial → w.entity.Unfinished name serial

def Closes (rules : Rulebook π) (effect : EffectName) (w w' : World π) : Prop :=
  SoundBut rules (· = effect) w → Sound rules w' ∧
    ∀ name serial, w'.entity.Unfinished name serial →
      name ≠ effect ∧ w.entity.Unfinished name serial

theorem Orderly.steady (rules : Rulebook π) : Act.Steady (Orderly rules) where
  refl _ sound := ⟨sound, fun _ _ unfinished => unfinished⟩
  trans first second sound :=
    have ⟨sound₁, fewer₁⟩ := first sound
    have ⟨sound₂, fewer₂⟩ := second sound₁
    ⟨sound₂, fun name serial unfinished => fewer₁ name serial (fewer₂ name serial unfinished)⟩

theorem Still.steady (rules : Rulebook π) : Act.Steady (Still rules) where
  refl _ sound := ⟨sound, fun _ => rfl⟩
  trans first second sound :=
    have ⟨sound₁, alike₁⟩ := first sound
    have ⟨sound₂, alike₂⟩ := second sound₁
    ⟨sound₂, alike₁.trans alike₂⟩

theorem Still.orderly {w' : World π} (still : Still rules w w') : Orderly rules w w' :=
  fun sound => ⟨(still sound).1, fun _ _ => (still sound).2.unfinished⟩

theorem Orderly.of_still {α : Type} {m : Act π α} (still : m.Keeps (Still rules)) :
    m.Keeps (Orderly rules) :=
  fun w => (still w).mono fun _ _ => Still.orderly

theorem Still.record {mark : Entity π → Occurrence π}
    (sees : ∀ e seen, (mark e).seen? = some seen → seen = e)
    (room : ∀ e, (mark e).WithinRoom rules) : (Act.record mark).Keeps (Still rules) := by
  intro w
  rw [Act.yields_record]
  exact fun sound => ⟨sound.push (capped_of_sees sound (sees w.entity) (fun _ never => never.elim)
    (room w.entity)), fun _ => rfl⟩

theorem Still.ignored (rules : Rulebook π) : Act.Ignored (Still rules) :=
  fun _ plain => .record (fun e => (plain e).2) fun e => withinRoom_of_plain (plain e).1

theorem Still.timeless (rules : Rulebook π) : Act.Timeless (Still rules) :=
  fun _ ofTime => .record (fun e => (ofTime e).2) fun e => withinRoom_of_time (ofTime e).1

theorem Still.of_alike {e : Entity π} (tidy : w.entity.Tidy → e.Tidy)
    (alike : w.entity.Alike e) : Still rules w { w with entity := e } :=
  fun sound => ⟨sound.alike (tidy sound.tidy) alike, alike⟩

theorem Still.modifyEntity {change : Entity π → Entity π}
    (tidy : ∀ e : Entity π, e.Tidy → (change e).Tidy)
    (alike : ∀ e : Entity π, e.Alike (change e)) :
    (Act.modifyEntity change).Keeps (Still rules) := by
  intro w
  rw [Act.yields_modifyEntity]
  exact .of_alike (tidy w.entity) (alike w.entity)

theorem Still.updateEntity {α : Type} {change : Entity π → α × Entity π}
    (tidy : ∀ e : Entity π, e.Tidy → (change e).2.Tidy)
    (alike : ∀ e : Entity π, e.Alike (change e).2) :
    (Act.updateEntity change).Keeps (Still rules) := by
  intro w
  rw [Act.yields_updateEntity]
  exact .of_alike (tidy w.entity) (alike w.entity)

theorem Orderly.ignored (rules : Rulebook π) : Act.Ignored (Orderly rules) :=
  fun mark plain => .of_still (Still.ignored rules mark plain)

theorem Orderly.timeless (rules : Rulebook π) : Act.Timeless (Orderly rules) :=
  fun mark ofTime => .of_still (Still.timeless rules mark ofTime)

theorem Closes.orderly {effect : EffectName} {w' : World π} (closes : Closes rules effect w w') :
    Orderly rules w w' := by
  intro sound
  obtain ⟨sound', fewer⟩ := closes (sound.mono fun _ never => never.elim)
  exact ⟨sound', fun name serial unfinished => (fewer name serial unfinished).2⟩

theorem Closes.trans {effect : EffectName} {w₁ w₂ : World π} (first : Closes rules effect w w₁)
    (second : Orderly rules w₁ w₂) : Closes rules effect w w₂ := by
  intro sound
  obtain ⟨sound₁, fewer₁⟩ := first sound
  obtain ⟨sound₂, fewer₂⟩ := second sound₁
  exact ⟨sound₂, fun name serial unfinished => fewer₁ name serial (fewer₂ name serial unfinished)⟩

/-- There is nothing to settle of an effect that is not live. -/
theorem Closes.of_absent {effect : EffectName} (absent : w.entity.effects.get? effect = none) :
    Closes rules effect w w := by
  intro sound
  have different {name : EffectName} {live : LiveEffect π}
      (there : w.entity.effects.get? name = some live) : name ≠ effect := by
    rintro rfl
    rw [absent] at there
    cases there
  exact
    ⟨{ sound with tallied := fun name live _ there =>
        sound.tallied name live (different there) there },
      fun name serial ⟨live, there, rest⟩ => ⟨different there, live, there, rest⟩⟩

namespace Engine

open Act

/-! ### Conditions -/

theorem setCondition_still (owner : Owner) (c : Condition π) :
    (modifyEntity fun e => e.setCondition owner c).Keeps (Still rules) :=
  .modifyEntity (fun _ tidy => tidy.setCondition owner c) fun e => .setCondition e owner c

theorem updateCondition_still {α : Type} (owner : Owner)
    (change : Readings → Condition π → Condition π × α) :
    (updateCondition rules owner change).Keeps (Still rules) :=
  updateCondition_keeps (Still.steady rules) (Still.ignored rules) (setCondition_still owner) change

theorem stimulate_still [CustomTrigger π] (owner : Owner) (stimulus : Stimulus) :
    (stimulate rules owner stimulus).Keeps (Still rules) :=
  stimulate_keeps (Still.steady rules) (Still.ignored rules) (Still.timeless rules)
    (setCondition_still owner) stimulus

/-! ### Verdicts -/

/-- Counting puts the count of an effect in order. -/
theorem recount_yields {effect : EffectName} (sound : SoundBut rules (· = effect) w) :
    (recount rules effect).Yields w fun found w' => match found with
      | none => w' = w ∧ w.entity.effects.get? effect = none
      | some v => Sound rules w' ∧ v.holds w'.entity effect = true ∧
          ∀ name serial, name ≠ effect → w'.entity.Unfinished name serial →
            w.entity.Unfinished name serial := by
  refine (recount_stores effect w).mono fun found w' stored => ?_
  cases found with
  | none => exact stored
  | some v =>
      obtain ⟨live, found, sum, applies, verdict, rfl⟩ := stored
      have changed : (w.entity.storeCount effect v.count v.active).effects =
          w.entity.effects.modify effect fun live =>
            { live with count := v.count, active := v.active } := rfl
      have only := Entity.OnlyAt.modify found changed
      have tallied : LiveEffect.Tallied rules effect
          { live with count := v.count, active := v.active } := by
        refine ⟨sum, fun yes zero => ?_, fun immune only => ?_⟩
        · change v.active = true at yes
          change v.count = 0 at zero
          rw [applies, zero] at yes
          cases yes
        · change v.active = _
          rw [applies, only]
      obtain ⟨d, registered, stocked⟩ := sound.stocked effect live found
      refine ⟨?_, ?_, fun name serial different => only.unfinished different⟩
      · have asked : SoundBut rules (· = effect)
            { w with trace := .consulted w.entity :: w.trace } :=
          sound.mark .consulted fun _ _ => trivial
        refine asked.put (sound.tidy.storeCount effect v.count v.active) only ?_
          ⟨d, registered, ?_⟩ (asked.sourced effect live found) fun _ => tallied
        · exact fun _ different was => different was
        · exact ⟨stocked.counts, stocked.positive, stocked.single, stocked.limited⟩
      · exact (holds_iff only.found).2 ⟨(congrArg Verdict.serial verdict).symm, rfl, rfl⟩

theorem live_of_holds {v : Verdict} {e : Entity π} {effect : EffectName}
    (holds : v.holds e effect = true) : ∃ live, e.effects.get? effect = some live ∧
      live.serial = v.serial ∧ live.count = v.count ∧ live.active = v.active := by
  cases found : e.effects.get? effect with
  | none =>
      unfold Verdict.holds at holds
      rw [found] at holds
      cases holds
  | some live => exact ⟨live, rfl, (holds_iff found).1 holds⟩

/-- Where a nested step has gone further than the settling that started it, it has finished: what is
unfinished has neither a count nor an application to differ in. -/
theorem finished_of_overtaken {effect : EffectName} {v : Verdict} {w w' : World π}
    (sound : Sound rules w) (holds : v.holds w.entity effect = true) (orderly : Orderly rules w w')
    (overtaken : v.holds w'.entity effect = false) (serial : Handle) :
    ¬w'.entity.Unfinished effect serial := by
  intro unfinished
  obtain ⟨sound', fewer⟩ := orderly sound
  obtain ⟨live, there, serials, rest⟩ := fewer effect serial unfinished
  obtain ⟨live', there', serials', rest'⟩ := unfinished
  have idle := (sound.tallied effect live id there).idle rest
  have idle' := (sound'.tallied effect live' id there').idle rest'
  obtain ⟨serial_v, count_v, active_v⟩ := (holds_iff there).1 holds
  have still : v.holds w'.entity effect = true := by
    refine (holds_iff there').2 ⟨?_, ?_, ?_⟩
    · rw [serials', ← serials, serial_v]
    · rw [idle'.1, ← idle.1, count_v]
    · rw [idle'.2, ← idle.2, active_v]
  rw [still] at overtaken
  cases overtaken

def Stage (rules : Rulebook π) (v : Verdict) (effect : EffectName) (m : Act π Bool) : Prop :=
  ∀ w, v.holds w.entity effect = true → m.Yields w fun still w' =>
    Orderly rules w w' ∧ v.holds w'.entity effect = still

theorem stage_of_keeps {v : Verdict} {effect : EffectName} {m : Act π Unit}
    (keeps : m.Keeps (Orderly rules)) : Stage rules v effect (do
      m
      pure (v.holds (← Act.entity) effect)) := by
  intro w _
  simp only [yields_bind, yields_entity, yields_pure]
  exact (keeps w).mono fun _ _ after => ⟨after, trivial⟩

theorem stage_pure (v : Verdict) (effect : EffectName) : Stage rules v effect (pure true) := by
  intro w holds
  rw [yields_pure]
  exact ⟨(Orderly.steady rules).refl w, holds⟩

/-! ### Modifiers that change -/

theorem dropModifier?_still {stat : StatName} {id : Handle} {e : Entity π}
    (dropped : w.entity.dropModifier? stat id = some e) : Still rules w { w with entity := e } := by
  have alike : w.entity.Alike e := by
    obtain ⟨_, _, rfl⟩ := Option.map_eq_some_iff.1 dropped
    exact .of_effects rfl
  exact .of_alike (fun tidy => tidy.dropModifier? dropped) alike

theorem dropModifiersOf_still (source : SourceTag) :
    (modifyEntity fun e => e.dropModifiersOf source).Keeps (Still (π := π) rules) :=
  .modifyEntity (fun _ tidy => tidy.dropModifiersOf source) fun e =>
    .of_effects (e.dropModifiersOf_effects source)

theorem refreshModifier_still {stat : StatName} {id : Handle} {m : Modifier π}
    (found : w.entity.modifiers.find? stat id = some m) :
    Still rules w { w with entity := w.entity.updateModifier stat id m.refresh.1 } := by
  refine .of_alike (fun tidy => tidy.updateModifier ?_ ?_) (.of_effects rfl)
  · exact tidy.filed stat m (List.mem_of_find?_eq_some found)
  · have handle := List.find?_some found
    exact of_decide_eq_true handle

/-- A handle is taken for a new part, and the rules are asked about it. -/
theorem takeHandle_still :
    Still rules w { w with
      entity := w.entity.takeHandle.2, trace := .consulted w.entity.takeHandle.2 :: w.trace } :=
  (Still.steady rules).trans (.of_alike Entity.Tidy.takeHandle (.of_effects rfl))
    (Still.ignored rules _ .consulted _ () _ rfl)

theorem addModifier_still [CustomTrigger π] {m : Modifier π} (new : m.id = w.entity.nextHandle) :
    Still rules w { w with
      entity := w.entity.takeHandle.2.addModifier rules.operators m
      trace := .consulted w.entity.takeHandle.2 :: w.trace } := by
  intro sound
  have added (_ : w.entity.takeHandle.2.Tidy) := sound.tidy.addNewModifier rules.operators new
  exact (Still.steady rules).trans takeHandle_still (.of_alike added (.of_effects rfl)) sound

variable {nested : Nested π} (orderly : ∀ r, (nested r).Keeps (Orderly rules))

include orderly

/-! ### Modifiers -/

theorem removeModifierAt_orderly (stat : StatName) (id : Handle) :
    (removeModifierAt nested stat id).Keeps (Orderly rules) := by
  refine fun w => removeModifierAt_cases (fun _ => (Orderly.steady rules).refl w)
    fun _ e _ dropped => ?_
  exact (Orderly.steady rules).yields (dropModifier?_still dropped).orderly (orderly _)

theorem removeModifiersOf_orderly (source : SourceTag) :
    (removeModifiersOf nested source).Keeps (Orderly rules) := by
  have steady := Orderly.steady rules
  refine steady.bind (Keeps.entity steady) fun e => ?_
  dsimp only
  split
  · exact steady.pure 0
  · refine steady.bind (.of_still (dropModifiersOf_still source)) fun _ => ?_
    exact steady.bind (steady.forM _ fun stat _ => orderly _) fun _ => steady.pure _

theorem modifierStimulated_orderly (stat : StatName) (id : Handle) :
    (modifierStimulated nested stat id).Keeps (Orderly rules) := by
  have steady := Orderly.steady rules
  intro w
  have before {m : Modifier π} (found : w.entity.modifiers.find? stat id = some m) :
      Orderly rules w { w with entity := w.entity.updateModifier stat id m.refresh.1 } :=
    (refreshModifier_still found).orderly
  refine modifierStimulated_cases (fun _ => steady.refl w) (fun _ _ _ => steady.refl w)
    (fun m e found _ _ _ dropped => ?_) fun m found _ => steady.yields (before found) (orderly _)
  have gone : Orderly rules { w with entity := w.entity.updateModifier stat id m.refresh.1 }
      { w with entity := e } := (dropModifier?_still dropped).orderly
  exact steady.yields (steady.trans (before found) gone) (orderly _)

theorem insertModifier_orderly [CustomTrigger π] (m : Modifier π) (source : Option SourceTag) :
    (insertModifier nested rules m source).Keeps (Orderly rules) := by
  have steady := Orderly.steady rules
  refine fun w => insertModifier_cases (fun m' _ _ _ => ?_) fun m' _ new _ => ?_
  · exact steady.trans takeHandle_still.orderly
      (Still.of_alike (fun tidy => tidy.releaseModifier _) (.of_effects rfl)).orderly
  · exact steady.yields (addModifier_still new).orderly (orderly _)

omit orderly in
theorem acquireModifier_orderly :
    (updateEntity (Entity.acquireModifier (π := π))).Keeps (Orderly rules) :=
  .of_still (.updateEntity (fun _ tidy => tidy.acquireModifier) fun _ => .of_effects rfl)

/-! ### Removing effects -/

theorem announceFlip_orderly (effect : EffectName) (active : Bool) :
    (announceFlip nested rules effect active).Keeps (Orderly rules) :=
  announceFlip_keeps (Orderly.steady rules) (Orderly.ignored rules) (fun _ _ _ => orderly _)
    effect active

omit orderly in
/-- Where an effect is taken out, nothing is left of it to count or to finish. -/
theorem closes_dropEffect (effect : EffectName) (live : LiveEffect π) :
    Closes rules effect w { w with
      entity := w.entity.dropEffect effect live
      trace := .effectRemoved effect (w.entity.dropEffect effect live) :: w.trace } := by
  intro sound
  have kept {name : EffectName} {other : LiveEffect π}
      (found : (w.entity.dropEffect effect live).effects.get? name = some other) :
      name ≠ effect ∧ w.entity.effects.get? name = some other := by
    rw [Entity.dropEffect_effects, Table.get?_erase] at found
    split at found
    · cases found
    · rename_i different
      exact ⟨different, found⟩
  have dropped : Sound rules { w with entity := w.entity.dropEffect effect live } :=
    { tidy := sound.tidy.dropEffect effect live
      stocked := fun name other found => sound.stocked name other (kept found).2
      sourced := fun name other found => sound.sourced name other (kept found).2
      tallied := fun name other _ found => sound.tallied name other (kept found).1 (kept found).2
      trace := sound.trace }
  constructor
  · refine dropped.push (capped_of_sees dropped (fun seen same => ?_) (fun _ never => never.elim)
      trivial)
    exact (Option.some.inj same).symm
  · rintro name serial ⟨other, found, same, rest⟩
    exact ⟨(kept found).1, other, (kept found).2, same, rest⟩

theorem removeLive_closes (effect : EffectName) (w : World π) :
    (removeLive nested rules effect).Yields w fun _ w' => Closes rules effect w w' := by
  refine removeLive_cases (fun absent => .of_absent absent) fun live _ => ?_
  have dropped : Closes rules effect w _ := closes_dropEffect effect live
  refine (removeModifiersOf_orderly orderly _ _).mono fun _ w₂ second => ?_
  refine ⟨fun _ => dropped.trans second, fun _ => ?_⟩
  exact (announceFlip_orderly orderly effect false w₂).mono fun _ w' third =>
    dropped.trans ((Orderly.steady rules).trans second third)

/-! ### Settling -/

theorem settleFlip_stage (effect : EffectName) (v : Verdict) :
    Stage rules v effect (settleFlip nested rules effect v) := by
  unfold settleFlip
  split
  · exact stage_of_keeps (announceFlip_orderly orderly effect v.active)
  · exact stage_pure v effect

omit orderly in
theorem drain_yields {effect : EffectName} {live : LiveEffect π} {w : World π}
    (sound : Sound rules w) (found : w.entity.effects.get? effect = some live)
    (zero : live.count = 0) :
    (drain effect).Yields w fun _ w' => Sound rules w' ∧
      w.entity.OnlyAt effect (live.without live.sourcelessStacks) w'.entity := by
  refine drain_cases (fun none => ?_) fun other there => ?_
  · refine ⟨sound, fun name => ?_⟩
    rw [none live found, Entity.without_eq_self fun _ _ => List.not_mem_nil]
    split
    · rename_i same
      rw [same, found]
    · rfl
  · rw [found] at there
    cases there
    have tidy := sound.tidy.detachStacks effect live.sourcelessStacks
    have only : w.entity.OnlyAt effect (live.without live.sourcelessStacks)
        (w.entity.detachStacks effect live.sourcelessStacks).2 :=
      .modify found (sound.tidy.effects_detachStacks effect _)
    obtain ⟨d, registered, stocked⟩ := sound.stocked effect live found
    have tallied := sound.tallied effect live id found
    have less := live.activeSum_without_le live.sourcelessStacks
    have count : live.activeSum = 0 := by
      rw [← tallied.count, zero]
      rfl
    have source (sourced : (live.without live.sourcelessStacks).Sourced) : w.Sourced effect :=
      sound.sourced effect live found sourced.of_without
    refine ⟨(sound.put tidy only (fun _ _ => id) ⟨d, registered, stocked.without _⟩ source
      fun _ => ?_).mark (.stacksChanged effect) fun _ never => never.elim, only⟩
    refine ⟨?_, tallied.counts, tallied.active⟩
    change live.count.toNat = _
    rw [zero]
    change 0 = _
    omega

theorem settleEnd_yields {effect : EffectName} {v : Verdict} {w : World π} (sound : Sound rules w)
    (holds : v.holds w.entity effect = true) :
    (settleEnd nested rules effect v).Yields w fun _ w' => Closes rules effect w w' := by
  obtain ⟨live, found, -, count, -⟩ := live_of_holds holds
  have tallied := sound.tallied effect live id found
  unfold settleEnd
  apply yields_ite
  · intro zero
    rw [yields_bind]
    refine (drain_yields sound found (count.trans zero)).mono fun _ w₁ drained => ?_
    obtain ⟨sound₁, only⟩ := drained
    have closes {w' : World π} (closes₁ : Closes rules effect w₁ w') :
        Closes rules effect w w' := by
      intro _
      obtain ⟨sound', fewer⟩ := closes₁ (sound₁.mono fun _ never => never.elim)
      refine ⟨sound', fun name serial unfinished => ?_⟩
      obtain ⟨different, before⟩ := fewer name serial unfinished
      exact ⟨different, only.unfinished different before⟩
    refine removeIfEmpty_cases (fun held => closes fun _ => ?_) fun _ _ _ =>
      (removeLive_closes orderly effect w₁).mono fun _ _ => closes
    refine ⟨sound₁, fun name serial unfinished => ⟨?_, unfinished⟩⟩
    rintro rfl
    obtain ⟨other, there, -, rest⟩ := unfinished
    rw [only.found] at there
    cases there
    refine rest ⟨held _ only.found, fun _ s member => ?_⟩
    obtain ⟨present, kept⟩ := List.mem_filter.1 member
    by_contra sourceless
    rw [decide_eq_true_eq] at kept
    exact kept (List.mem_map_of_mem (List.mem_filter.2 ⟨present, by simp [sourceless]⟩))
  · intro counts
    rw [yields_pure]
    intro _
    refine ⟨sound, fun name serial unfinished => ⟨?_, unfinished⟩⟩
    rintro rfl
    obtain ⟨other, there, -, rest⟩ := unfinished
    rw [found] at there
    cases there
    exact counts (count.symm.trans (tallied.idle rest).1)

variable [CustomTrigger π]

theorem renewModifiers_orderly (definition : EffectDefinition π) (active : Bool) (count : UInt32) :
    (renewModifiers nested rules definition active count).Keeps (Orderly rules) := by
  have steady := Orderly.steady rules
  have records {mark : Entity π → Occurrence π} (sees : ∀ e, (mark e).seen? = some e)
      (room : ∀ e, (mark e).WithinRoom rules) : (record mark).Keeps (Orderly rules) :=
    .of_still (.record (fun e seen same => (Option.some.inj ((sees e).symm.trans same)).symm) room)
  refine renewModifiers_keeps steady (records (fun _ => rfl) fun _ => trivial)
    (removeModifiersOf_orderly orderly _) (fun template count => ?_)
    (records (fun _ => rfl) fun _ => trivial) active count
  refine steady.bind acquireModifier_orderly fun blank => ?_
  exact steady.bind (records (fun _ => rfl) fun _ => trivial) fun _ =>
    steady.bind (insertModifier_orderly orderly _ _) fun _ => steady.pure _

theorem settleModifiers_stage (effect : EffectName) (v : Verdict) :
    Stage rules v effect (settleModifiers nested rules effect v) := by
  unfold settleModifiers
  cases rules.effects.get? effect with
  | none => exact stage_pure v effect
  | some definition =>
      dsimp only
      split
      · exact stage_of_keeps (renewModifiers_orderly orderly definition v.active v.count)
      · exact stage_pure v effect

theorem settle_closes (effect : EffectName) (w : World π) :
    (settle nested rules effect).Yields w fun _ w' => Closes rules effect w w' := by
  have steady := Orderly.steady rules
  refine Yields.given fun sound => ?_
  rw [settle, yields_bind]
  refine (recount_yields sound).mono fun found w₁ counted => ?_
  cases found with
  | none =>
      obtain ⟨rfl, absent⟩ := counted
      rw [yields_pure]
      exact Closes.of_absent absent sound
  | some v =>
      obtain ⟨sound₁, holds, fewer⟩ := counted
      -- A stage after which the effect is not as it was found was overtaken, and ends settling.
      have overtaken {w' : World π} (after : Orderly rules w₁ w')
          (lost : v.holds w'.entity effect = false) : Sound rules w' ∧
          ∀ name serial, w'.entity.Unfinished name serial →
            name ≠ effect ∧ w.entity.Unfinished name serial := by
        refine ⟨(after sound₁).1, fun name serial unfinished => ?_⟩
        have different : name ≠ effect := by
          rintro rfl
          exact finished_of_overtaken sound₁ holds after lost serial unfinished
        exact ⟨different, fewer name serial different ((after sound₁).2 name serial unfinished)⟩
      rw [yields_bind]
      refine (settleFlip_stage orderly effect v w₁ holds).mono fun still w₂ flipped => ?_
      obtain ⟨after₂, holds₂⟩ := flipped
      apply yields_ite
      · intro yes
        rw [yields_bind]
        refine (settleModifiers_stage orderly effect v w₂ (holds₂.trans yes)).mono
          fun still w₃ renewed => ?_
        obtain ⟨after₃, holds₃⟩ := renewed
        have after := steady.trans after₂ after₃
        apply yields_ite
        · intro yes
          have sound₃ := (after sound₁).1
          refine (settleEnd_yields orderly sound₃ (holds₃.trans yes)).mono fun _ w' ended => ?_
          obtain ⟨sound', fewer'⟩ := ended (sound₃.mono fun _ never => never.elim)
          refine ⟨sound', fun name serial unfinished => ?_⟩
          obtain ⟨different, before⟩ := fewer' name serial unfinished
          exact ⟨different, fewer name serial different ((after sound₁).2 name serial before)⟩
        · intro no
          rw [yields_pure]
          exact overtaken after (holds₃.trans (Bool.eq_false_iff.2 no))
      · intro no
        rw [yields_pure]
        exact overtaken after₂ (holds₂.trans (Bool.eq_false_iff.2 no))

theorem settleStacks_closes (effect : EffectName) (w : World π) :
    (settleStacks nested rules effect).Yields w fun _ w' => Closes rules effect w w' := by
  rw [settleStacks, announceStacks, yields_bind, yields_record]
  refine (settle_closes orderly effect _).mono fun _ w' closes => ?_
  exact fun sound => closes (sound.mark (.stacksChanged effect) fun _ => id)

end Engine

end StatusEffects
