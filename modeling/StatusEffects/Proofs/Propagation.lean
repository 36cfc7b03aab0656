import StatusEffects.Proofs.Run
import StatusEffects.Proofs.StackCaps
import StatusEffects.Proofs.Wired

/-!
Every change of a stat reaches every condition that watches it.

Between calls no doubt is left: each call raises doubt only about stats that it announces afterwards,
and an announcement ends with no doubt about its stat, whatever hooks and conditions did meanwhile.
For the round of an announcement the doubt about its stat is held by the owners whose turn is still
to come; owners that leave take their doubt with them, and new ones bring none. A trigger that begins
to watch another stat while it is in use is not told of it, so its result may stay behind.
-/

set_option autoImplicit false

namespace StatusEffects

variable {π : Type} {rules : Rulebook π} [CustomTrigger π]

def Call.Fresh : Call π → Prop
  | .addModifier m _ => m.Fresh
  | .addStack _ s _ => s.Fresh
  | .replaceStack _ s _ => s.Fresh
  | _ => True

/-- Hooks handed in only what is fresh. -/
def Handed (trace : List (Occurrence π)) : Prop :=
  ∀ c reply seen, .called c reply seen ∈ trace → c.Fresh

omit [CustomTrigger π] in
theorem Handed.tail {o : Occurrence π} {trace : List (Occurrence π)} (handed : Handed (o :: trace)) :
    Handed trace :=
  fun c reply seen member => handed c reply seen (.tail _ member)

/-- A step takes entities that are wired under some doubt to entities that are wired under another
one. -/
def Carries (rules : Rulebook π) (pending pending' : Option Owner) (change : Doubt → Doubt)
    (w w' : World π) : Prop :=
  Handed w'.trace → Handed w.trace ∧
    ∀ doubt, w.entity.Wired rules pending doubt → w'.entity.Wired rules pending' (change doubt)

abbrev Calm (rules : Rulebook π) : World π → World π → Prop := Carries rules none none id

/-- What requests do: an announcement ends the doubt about its stat. -/
def Request.Calms (rules : Rulebook π) : Request π → World π → World π → Prop
  | .announce stat => Carries rules none none (Doubt.except stat)
  | .run .. => Calm rules

section

variable {pending pending' pending'' : Option Owner} {change change' : Doubt → Doubt}
  {w w₁ w' : World π}

theorem Carries.trans (first : Carries rules pending pending' change w w₁)
    (second : Carries rules pending' pending'' change' w₁ w') :
    Carries rules pending pending'' (fun doubt => change' (change doubt)) w w' := by
  intro handed
  obtain ⟨handed₁, wired'⟩ := second handed
  obtain ⟨handed₀, wired₁⟩ := first handed₁
  exact ⟨handed₀, fun doubt wired => wired' _ (wired₁ doubt wired)⟩

theorem Carries.mono (carries : Carries rules pending pending' change w w')
    (weaker : ∀ doubt owner stat, change doubt owner stat → change' doubt owner stat) :
    Carries rules pending pending' change' w w' := by
  intro handed
  obtain ⟨handed₀, wired⟩ := carries handed
  exact ⟨handed₀, fun doubt before => (wired doubt before).mono (weaker doubt)⟩

theorem Carries.of_entity {e : Entity π}
    (keeps : ∀ doubt, w.entity.Wired rules pending doubt → e.Wired rules pending' (change doubt)) :
    Carries rules pending pending' change w { w with entity := e } :=
  fun handed => ⟨handed, keeps⟩

/-- A change of the entity that raises no doubt may follow. -/
theorem Carries.put {e : Entity π} (carries : Carries rules pending pending' change w w')
    (keeps : ∀ doubt, w'.entity.Wired rules pending' doubt → e.Wired rules pending'' doubt) :
    Carries rules pending pending'' change w { w' with entity := e } := by
  intro handed
  obtain ⟨handed₀, wires⟩ := carries handed
  exact ⟨handed₀, fun doubt wired => keeps _ (wires doubt wired)⟩

theorem Carries.record {o : Occurrence π} (carries : Carries rules pending pending' change w w') :
    Carries rules pending pending' change w { w' with trace := o :: w'.trace } :=
  fun handed => carries handed.tail

/-- A change that raises doubt about a stat may be followed by the announcement of the stat. -/
theorem Carries.announced {stat : StatName}
    (raises : Carries rules pending none (Doubt.about [stat]) w w₁)
    (told : (Request.announce stat).Calms rules w₁ w') : Carries rules pending none id w w' := by
  refine (raises.trans told).mono fun doubt owner other both => ?_
  obtain ⟨different, either⟩ := both
  rcases either with same | before
  · exact absurd (List.mem_singleton.1 same) different
  · exact before

end

theorem Calm.steady (rules : Rulebook π) : Act.Steady (Calm rules) where
  refl _ := fun handed => ⟨handed, fun _ wired => wired⟩
  trans first second := first.trans second

namespace Engine

open Act

theorem Calm.ignored (rules : Rulebook π) : Ignored (Calm rules) := by
  intro mark _ w
  rw [yields_record]
  exact ((Calm.steady rules).refl w).record

theorem Calm.timeless (rules : Rulebook π) : Timeless (Calm rules) := by
  intro mark _ w
  rw [yields_record]
  exact ((Calm.steady rules).refl w).record

theorem calm_updateEntity {α : Type} {change : Entity π → α × Entity π}
    (keeps : ∀ e doubt, e.Wired rules none doubt → (change e).2.Wired rules none doubt) :
    (updateEntity change).Keeps (Calm rules) := by
  intro w
  rw [yields_updateEntity]
  exact .of_entity (keeps w.entity)

variable (plain : rules.statRules = ∅) (watched : WatchedOnly π) {nested : Nested π}
  (calms : ∀ r, (nested r).Keeps (r.Calms rules))

/-! ### Modifiers -/

include plain watched

theorem acquireModifier_calm :
    (updateEntity (Entity.acquireModifier (π := π))).Keeps (Calm rules) :=
  calm_updateEntity fun _ _ wired =>
    wired.of_same plain watched wired.tidy.acquireModifier rfl rfl rfl rfl

include calms

theorem removeModifierAt_calm (stat : StatName) (id : Handle) :
    (removeModifierAt nested stat id).Keeps (Calm rules) := by
  refine fun w => removeModifierAt_cases (fun _ => (Calm.steady rules).refl w)
    fun _ e _ dropped => ?_
  refine (calms (.announce stat) _).mono fun _ w' told => ?_
  refine Carries.announced (.of_entity fun doubt wired => ?_) told
  refine wired.sheds plain watched (wired.tidy.dropModifier? dropped) (fun _ _ => .inr)
    (fun other => ?_) (wired.tidy.sheds_dropModifier? dropped)
  by_cases here : other = stat
  · exact .inl fun _ => .inl (List.mem_singleton.2 here)
  · exact .inr (Entity.sameAt_dropModifier? dropped here)

theorem removeModifiersOf_calm (source : SourceTag) :
    (removeModifiersOf nested source).Keeps (Calm rules) := by
  refine fun w => removeModifiersOf_cases (fun _ => (Calm.steady rules).refl w)
    fun stats owed => ?_
  have dropped : Carries rules none none (Doubt.about stats) w
      { w with entity := w.entity.dropModifiersOf source } := by
    refine .of_entity fun doubt wired => ?_
    refine wired.sheds plain watched (wired.tidy.dropModifiersOf source) (fun _ _ => .inr)
      (fun stat => ?_) (wired.tidy.sheds_dropModifiersOf source)
    by_cases present : stat ∈ stats
    · exact .inl fun _ => .inl present
    · exact .inr (wired.tidy.sameAt_dropModifiersOf fun m member same =>
        present ((owed stat).2 ⟨m, member, same⟩))
  refine (yields_forM (fun rest w' => Carries rules none none (Doubt.about rest) w w')
    (fun stat rest w₁ before => ?_) stats _ dropped).mono fun _ w' done => ?_
  · refine (calms (.announce stat) w₁).mono fun _ w' told => ?_
    refine (before.trans told).mono fun doubt owner other both => ?_
    obtain ⟨different, either⟩ := both
    exact either.imp_left fun member => (List.mem_cons.1 member).resolve_left different
  · exact done.mono fun doubt owner stat either => either.resolve_left List.not_mem_nil

/-- What is inserted has to be fresh, which may depend on the order of the pools it came from. -/
theorem insertModifier_calm {w₀ w : World π} (before : Calm rules w₀ w) {m : Modifier π}
    (fresh : w₀.entity.Tidy → m.Fresh) (source : Option SourceTag) :
    (insertModifier nested rules m source).Yields w fun _ w' => Calm rules w₀ w' := by
  have numbered {doubt : Doubt} (wired : w.entity.Wired rules none doubt) :
      w.entity.takeHandle.2.Wired rules none doubt :=
    wired.of_same plain watched wired.tidy.takeHandle rfl rfl rfl rfl
  have started (tidy : w₀.entity.Tidy) := Modifier.Fresh.attach
    (m := { m with id := w.entity.nextHandle }) (fresh tidy)
    (rules.readings w.entity.takeHandle.2) source
  refine insertModifier_cases (fun m' _ _ _ => ?_) fun m' attached handle lasts => ?_
  · refine before.trans (fun handed => ⟨handed.tail, fun doubt wired => ?_⟩)
    have wired₁ := numbered wired
    exact wired₁.of_same plain watched (wired₁.tidy.releaseModifier m'.detach) rfl rfl rfl rfl
  · rw [attached] at started
    refine (calms (.announce m'.stat) _).mono fun _ w' told => ?_
    refine Carries.announced (fun handed => ?_) told
    obtain ⟨handed₀, wires⟩ := before handed.tail
    refine ⟨handed₀, fun doubt wired => ?_⟩
    have wired₁ := wires doubt wired
    exact (numbered wired₁).addModifier plain watched
      (wired₁.tidy.addNewModifier rules.operators handle) (started wired.tidy) lasts

omit plain watched calms [CustomTrigger π] in
theorem fresh_configure (m : Modifier π) : (Modifier.blank.configure m).Fresh :=
  ⟨rfl, Condition.unarmed_pristine m.duration⟩

theorem copyModifiers_calm (modifiers : List (Modifier π)) :
    (copyModifiers nested rules modifiers).Keeps (Calm rules) := by
  refine copyModifiers_keeps (Calm.steady rules) modifiers fun m _ w => ?_
  rw [yields_bind]
  intro blank w₁ acquired
  refine insertModifier_calm plain watched calms
    (acquireModifier_calm plain watched w blank w₁ acquired) (fun tidy => ?_) m.source
  cases acquired
  change (w.entity.acquireModifier.1.configure m).Fresh
  rw [tidy.acquireModifier_fst]
  exact fresh_configure m

/-- A modifier whose tree looked again takes its activity from it, or goes. -/
theorem modifierStimulated_carries (stat : StatName) (id : Handle) (w : World π) :
    (modifierStimulated nested stat id).Yields w fun _ w' =>
      Carries rules (some (.modifier stat id)) none (fun doubt => doubt) w w' := by
  refine modifierStimulated_cases (fun absent => ?absent) (fun m found unchanged => ?same)
    (fun m e found _ _ _ dropped => ?goes) fun m found lasts => ?flips
  case absent =>
    refine .of_entity fun doubt wired => wired.settled fun c g bears => ?_
    exact absurd bears (Entity.not_bears_modifier absent c (some g))
  case same =>
    refine .of_entity fun doubt wired => ?_
    have still : w.entity.updateModifier stat id m.refresh.1 = w.entity := by
      rw [Modifier.refresh_eq_self unchanged, Entity.updateModifier_self found]
    rw [← still]
    refine wired.updateModifier plain watched found (fun sourceless => ?_)
      (fun _ _ doubtful => doubtful) fun other => .inr ?_
    · have active : m.shouldBeActive = m.active := bne_eq_false_iff_eq.1 unchanged
      rw [active]
      have member := List.mem_of_find?_eq_some found
      exact (wired.seated _ _ _ (.modifier member)).lasts _ rfl sourceless
    · rw [still]
      exact .refl w.entity other
  case goes =>
    have handle : m.refresh.1.id = id := of_decide_eq_true (List.find?_some found :)
    refine (calms (.announce stat) _).mono fun _ w' told => ?_
    refine Carries.announced (.of_entity fun doubt wired => ?_) told
    have filed : m.refresh.1.stat = stat :=
      wired.tidy.filed stat m (List.mem_of_find?_eq_some found)
    exact wired.dropModifier plain watched found filed handle dropped
  case flips =>
    refine (calms (.announce stat) _).mono fun _ w' told => ?_
    refine Carries.announced (.of_entity fun doubt wired => ?_) told
    refine wired.updateModifier plain watched found lasts (fun _ _ => .inr) fun other => ?_
    by_cases here : other = stat
    · exact .inl fun _ => .inl (List.mem_singleton.2 here)
    · exact .inr (Entity.sameAt_updateModifier here)

/-! ### Effects and their stacks -/

theorem removeLive_calm (effect : EffectName) :
    (removeLive nested rules effect).Keeps (Calm rules) := by
  have steady := Calm.steady rules
  refine fun w => removeLive_cases (fun _ => steady.refl w) fun live _ => ?_
  have dropped : Calm rules w { w with
      entity := w.entity.dropEffect effect live
      trace := .effectRemoved effect (w.entity.dropEffect effect live) :: w.trace } := by
    refine Carries.record (.of_entity fun doubt wired => ?_)
    exact wired.sheds plain watched (wired.tidy.dropEffect effect live) (fun _ _ => id)
      (fun stat => .inr (Entity.sameAt_dropEffect _ effect live stat))
      (Entity.sheds_dropEffect _ effect live)
  refine (steady.yields dropped (removeModifiersOf_calm plain watched calms _)).mono
    fun _ w₁ removed => ⟨fun _ => removed, fun _ => steady.yields removed ?_⟩
  exact announceFlip_keeps steady (Calm.ignored rules) (fun _ _ _ => calms _) effect false

omit calms in
theorem drain_calm (effect : EffectName) : (drain effect).Keeps (Calm rules) := by
  refine fun w => drain_cases (fun _ => (Calm.steady rules).refl w) fun live _ => ?_
  refine Carries.record (.of_entity fun doubt wired => ?_)
  exact wired.sheds plain watched (wired.tidy.detachStacks effect _) (fun _ _ => id)
    (fun stat => .inr (Entity.sameAt_detachStacks _ effect _ stat))
    (wired.tidy.sheds_detachStacks effect _)

omit calms in
theorem recount_calm (effect : EffectName) : (recount rules effect).Keeps (Calm rules) := by
  refine fun w => (recount_stores effect w).mono fun found w' stored => ?_
  cases found with
  | none =>
      obtain ⟨rfl, -⟩ := stored
      exact (Calm.steady rules).refl w'
  | some v =>
      obtain ⟨live, -, -, -, -, rfl⟩ := stored
      refine Carries.record (.of_entity fun doubt wired => ?_)
      exact wired.sheds plain watched (wired.tidy.storeCount effect _ _) (fun _ _ => id)
        (fun stat => .inr (.refl _ stat)) (Entity.sheds_storeCount _ effect _ _)

theorem renewModifiers_calm (definition : EffectDefinition π) (active : Bool) (count : UInt32) :
    (renewModifiers nested rules definition active count).Keeps (Calm rules) := by
  have steady := Calm.steady rules
  have records (mark : Entity π → Occurrence π) : (record mark).Keeps (Calm rules) := by
    intro w
    rw [yields_record]
    exact (steady.refl w).record
  refine renewModifiers_keeps steady (records _) (removeModifiersOf_calm plain watched calms _)
    (fun template count w => ?_) (records _) active count
  simp only [yields_bind, yields_record, yields_pure]
  intro blank w₁ acquired
  have before := acquireModifier_calm plain watched w blank w₁ acquired
  refine insertModifier_calm plain watched calms before.record (fun tidy => ?_) _
  cases acquired
  have fresh := fresh_configure template
  rw [← tidy.acquireModifier_fst] at fresh
  exact fresh

theorem settle_calm (effect : EffectName) : (settle nested rules effect).Keeps (Calm rules) := by
  have steady := Calm.steady rules
  exact settle_keeps steady (recount_calm plain watched effect)
    (announceFlip_keeps steady (Calm.ignored rules) (fun _ _ _ => calms _) effect)
    (fun definition _ => renewModifiers_calm plain watched calms definition)
    (drain_calm plain watched effect) (removeLive_calm plain watched calms effect)

theorem settleStacks_calm (effect : EffectName) :
    (settleStacks nested rules effect).Keeps (Calm rules) :=
  settleStacks_keeps (Calm.steady rules) (Calm.ignored rules) (settle_calm plain watched calms) effect

theorem removeStack_calm (effect : EffectName) (id : Handle) :
    (removeStack nested rules effect id).Keeps (Calm rules) := by
  have steady := Calm.steady rules
  refine fun w => removeStack_cases (fun _ => steady.refl w) fun _ e _ detached => ?_
  refine steady.yields (.of_entity fun doubt wired => ?_)
    (settleStacks_calm plain watched calms effect)
  exact wired.sheds plain watched (wired.tidy.detachStack? detached) (fun _ _ doubtful => doubtful)
    (fun stat => .inr (Entity.sameAt_detachStack? detached stat))
    (wired.tidy.sheds_detachStack? detached)

theorem removeStacksOf_calm (effect : EffectName) (source : SourceTag) :
    (removeStacksOf nested rules effect source).Keeps (Calm rules) := by
  have steady := Calm.steady rules
  refine fun w => removeStacksOf_cases (fun _ => steady.refl w) fun live _ _ => ?_
  refine steady.yields (.of_entity fun doubt wired => ?_)
    (settleStacks_calm plain watched calms effect)
  exact wired.sheds plain watched (wired.tidy.detachStacks effect _) (fun _ _ doubtful => doubtful)
    (fun stat => .inr (Entity.sameAt_detachStacks w.entity effect _ stat))
    (wired.tidy.sheds_detachStacks effect _)

theorem reduceStacks_calm (effect : EffectName) (amount : UInt32) :
    (reduceStacks nested rules effect amount).Keeps (Calm rules) := by
  have steady := Calm.steady rules
  refine fun w => reduceStacks_cases (steady.refl w) fun live held left emptied found taken => ?_
  refine steady.yields (.of_entity fun doubt wired => ?_)
    (settleStacks_calm plain watched calms effect)
  have drawn := drawDown_reverse taken
  have tidy : (w.entity.setStacks effect held.reverse).Tidy := wired.tidy.setDrawn found drawn
  have sheds : w.entity.Sheds (w.entity.setStacks effect held.reverse) := by
    refine Entity.sheds_modifyEffect fun other there => ⟨rfl, rfl, fun s member => ?_⟩
    rw [found] at there
    cases there
    obtain ⟨before, present, same, -⟩ := Stack.Drawn.mem drawn member
    refine ⟨before, present, ?_⟩
    rw [same]
    rfl
  exact wired.sheds plain watched (tidy.detachStacks effect emptied) (fun _ _ doubtful => doubtful)
    (fun stat => .inr (Entity.sameAt_detachStacks _ effect emptied stat))
    (sheds.trans (tidy.sheds_detachStacks effect emptied))

/-- A stack whose tree looked again takes its activity from it, or goes. -/
theorem stackFlipped_carries {effect : EffectName} {id : Handle} {s : Stack π} {w : World π}
    (found : w.entity.stack? effect id = some s) (s' : Stack π) (handle : s'.id = id)
    (duration : s'.duration = s.duration) :
    (stackFlipped nested rules effect id).Yields
      { w with entity := w.entity.updateStack effect id s'.refresh.1 } fun _ w' =>
        Carries rules (some (.stack effect id)) none (fun doubt => doubt) w w' := by
  have same : s'.refresh.1.id = id := handle
  have present := Entity.stack?_updateStack found same
  refine stackFlipped_cases (fun absent => ?_) (fun _ e _ _ _ detached => ?_) fun other there lasts => ?_
  · rw [present] at absent
    cases absent
  · have gone : Carries rules (some (.stack effect id)) none (fun doubt => doubt) w
        { w with entity := e } :=
      .of_entity fun doubt wired => wired.detachStack plain watched found same detached
    exact (settleStacks_calm plain watched calms effect _).mono fun _ w' settled =>
      gone.trans settled
  · rw [present] at there
    cases there
    have stays : Carries rules (some (.stack effect id)) none (fun doubt => doubt) w
        { w with entity := w.entity.updateStack effect id s'.refresh.1 } :=
      .of_entity fun doubt wired =>
        wired.updateStack plain watched found handle duration lasts
    exact (settleStacks_calm plain watched calms effect _).mono fun _ w' settled =>
      stays.trans settled

omit calms in
/-- A stack whose activity is what its tree says already stays. -/
theorem refreshed_carries {effect : EffectName} {id : Handle} {s : Stack π} {w : World π}
    (found : w.entity.stack? effect id = some s) (s' : Stack π) (handle : s'.id = id)
    (duration : s'.duration = s.duration) (active : s'.active = s.active)
    (source : s'.isSourced = s.isSourced) (unchanged : s'.refresh.2 = false) :
    Carries rules (some (.stack effect id)) none (fun doubt => doubt) w
      { w with entity := w.entity.updateStack effect id s'.refresh.1 } := by
  refine .of_entity fun doubt wired => ?_
  refine wired.updateStack plain watched found handle duration fun sourceless => ?_
  have follows : s'.shouldBeActive = s'.active := bne_eq_false_iff_eq.1 unchanged
  obtain ⟨live, lives, stack⟩ := Option.bind_eq_some_iff.1 found
  rw [follows, active]
  exact (wired.seated _ _ _ (.stack lives (List.mem_of_find?_eq_some stack))).lasts _ rfl
    (source.symm.trans sourceless)

omit calms plain watched in
theorem pending_of_gone {effect : EffectName} {id : Handle} {w : World π}
    (absent : w.entity.stack? effect id = none) :
    Carries rules (some (.stack effect id)) none (fun doubt => doubt) w w := by
  intro handed
  refine ⟨handed, fun doubt wired => wired.settled fun c g bears => ?_⟩
  exact absurd bears (Entity.not_bears_stack absent c (some g))

theorem stackStimulated_carries (effect : EffectName) (id : Handle) (w : World π) :
    (stackStimulated nested rules effect id).Yields w fun _ w' =>
      Carries rules (some (.stack effect id)) none (fun doubt => doubt) w w' := by
  refine stackStimulated_cases pending_of_gone (fun s found handle unchanged => ?_)
    fun s found handle => ?_
  · have settled := refreshed_carries plain watched found s handle rfl rfl rfl unchanged
    rwa [Stack.refresh_eq_self unchanged, Entity.updateStack_self found] at settled
  · exact stackFlipped_carries plain watched calms found s handle rfl

/-! ### Trees that look again -/

omit watched calms [CustomTrigger π] in
/-- What becomes of the tree of an owner; without one nothing happens. -/
theorem updateCondition_yields {α : Type} (owner : Owner)
    (change : Readings → Condition π → Condition π × α) (w : World π) :
    (updateCondition rules owner change).Yields w fun result w' =>
      match result with
      | none => w.entity.condition owner = .absent ∧ w' = w
      | some a => ∃ c gate, w.entity.Bears owner c gate ∧
          w' = { w with
            entity := w.entity.setCondition owner (change (rules.readings w.entity) c).1
            trace := .consulted (w.entity.setCondition owner .absent) :: w.trace } ∧
          a = (change (rules.readings w.entity) c).2 := by
  have reads : rules.readings (w.entity.setCondition owner .absent) = rules.readings w.entity :=
    rules.readings_eq plain (Entity.sameAt_setCondition w.entity owner .absent)
  refine (updateCondition_stores owner change w).mono fun result w' stored => ?_
  rcases stored with ⟨absent, rfl, rfl⟩ | ⟨there, rfl, rfl⟩
  · exact ⟨absent, rfl⟩
  · obtain ⟨gate, bears⟩ := Entity.bears_of_present there
    rw [reads]
    exact ⟨_, gate, bears, rfl, rfl⟩

omit plain watched calms in
theorem mergedDuration_renews {c : Condition π} (armed : c.Armed) (stacking : Stacking)
    (r : Readings) (incoming : Condition π) : c.Renews r (mergedDuration stacking r c incoming) := by
  cases stacking with
  | restart => exact Condition.restart_renews armed r
  | extend =>
      cases incoming with
      | absent => exact .refl r c
      | node head next alternative =>
          rw [mergedDuration, extendDuration]
          split
          · rename_i timed _
            exact Condition.review_mapCountdown_renews armed timed _ r
          · exact Condition.orElse_renews (Condition.unarmed_pristine _) c r
  | merge => exact .refl r c
  | separate => exact .refl r c

omit calms in
theorem mergeDuration_carries (definition : EffectDefinition π) (target : Handle)
    (incoming : Stack π) (w : World π) :
    (mergeDuration rules definition target incoming).Yields w fun _ w' =>
      Carries rules none (some (.stack definition.effect target)) id w w' := by
  refine mergeDuration_cases (fun _ => ?_) fun c' there merged => ?_
  · exact fun handed => ⟨handed, fun doubt wired => wired.pend _⟩
  · obtain ⟨gate, bears⟩ := Entity.bears_of_present there
    rw [rules.readings_eq plain (Entity.sameAt_setCondition w.entity _ .absent)] at merged
    refine fun handed => ⟨handed.tail, fun doubt wired => ?_⟩
    have renews := mergedDuration_renews (wired.seated _ _ gate bears).armed definition.stacking
      (rules.readings w.entity) incoming.duration
    rw [merged] at renews
    have set := (wired.tidy.setCondition _ c').condition_of_bears
      (wired.tidy.bears_setCondition bears c')
    change ((w.entity.setCondition _ c').subscribe _ _).Wired rules _ _
    rw [set]
    exact wired.setCondition plain watched bears renews c'.interests fun _ stat watches =>
      .inr (Condition.interests_stats.2 watches)

theorem mergeStack_calm (definition : EffectDefinition π) (target : Handle) (incoming : Stack π) :
    (mergeStack nested rules definition target incoming).Keeps (Calm rules) := by
  intro w
  have released : (mergeDuration rules definition target incoming).Yields w fun _ w₁ =>
      Carries rules none (some (.stack definition.effect target)) id w
        { w₁ with entity := w₁.entity.releaseStack incoming.detach } := by
    refine (mergeDuration_carries plain watched definition target incoming w).mono
      fun _ w₁ merged => merged.put fun doubt wired => ?_
    exact wired.of_same plain watched (wired.tidy.releaseStack incoming.detach) rfl rfl rfl rfl
  refine mergeStack_cases _ released (fun w₂ before absent => ?_)
    (fun w₂ s s' before found handle joined unchanged => ?_)
    fun w₂ s s' before found handle joined _ => ?_
  · exact before.trans (pending_of_gone absent)
  · subst joined
    exact before.trans (refreshed_carries plain watched found _ handle rfl rfl rfl unchanged)
  · subst joined
    have flips := stackFlipped_carries plain watched calms found
      { s with value := mergedValue definition s.value incoming.value } handle rfl
    exact flips.mono fun _ w' flipped => before.trans flipped

/-! ### Stacks that come -/

omit calms in
theorem ensureLive_calm (definition : EffectDefinition π) :
    (ensureLive rules definition).Keeps (Calm rules) := by
  refine fun w => ensureLive_cases (fun _ => (Calm.steady rules).refl w) fun _ handed =>
    ⟨handed.tail, fun doubt wired => ?_⟩
  have tidy₀ := wired.tidy.acquireEffect
  have wired₀ : w.entity.acquireEffect.2.Wired rules none doubt :=
    wired.of_same plain watched tidy₀ rfl rfl rfl rfl
  have blank := wired.tidy.acquireEffect_fst
  have held : w.entity.acquireEffect.1.held = [] := congrArg LiveEffect.held blank
  have empty : w.entity.acquireEffect.1.conditions = [] := congrArg LiveEffect.conditions blank
  refine wired₀.addEffect plain watched (wired.tidy.addNewEffect _ _) held empty fun c member => ?_
  obtain ⟨custom, -, rfl⟩ := List.mem_map.1 member
  exact Condition.arm_renews (Condition.unarmed_pristine custom.condition) _

omit calms in
theorem released_calm {w₀ w : World π} (before : Calm rules w₀ w) (s : Stack π) :
    Calm rules w₀ { w with entity := w.entity.releaseStack s } :=
  before.put fun _ wired =>
    wired.of_same plain watched (wired.tidy.releaseStack s) rfl rfl rfl rfl

omit calms in
theorem releaseStack_calm (s : Stack π) :
    (modifyEntity fun e => e.releaseStack s).Keeps (Calm rules) := by
  intro w
  rw [yields_modifyEntity]
  exact released_calm plain watched ((Calm.steady rules).refl w) s

/-- A stack that is about to join was attached to the entity as it is, under a handle of its own. -/
def Primed (rules : Rulebook π) (w₀ w : World π) (s : Stack π) : Prop :=
  Handed w.trace → ∀ doubt, w₀.entity.Wired rules none doubt → w.entity.Spare s.id ∧
    Started (rules.readings w.entity) s.duration s.active s.isSourced

omit calms in
theorem pushStack_calm {w₀ w : World π} (before : Calm rules w₀ w) {s : Stack π}
    (primed : Primed rules w₀ w s) (lasts : s.isSourced = false → s.active = true)
    (effect : EffectName) :
    (pushStack effect s).Yields w fun _ w' => Calm rules w₀ w' := by
  refine pushStack_cases (fun _ handed => ?_) fun _ => released_calm plain watched before s.detach
  obtain ⟨handed₀, wires⟩ := before handed.tail
  refine ⟨handed₀, fun doubt wired₀ => ?_⟩
  obtain ⟨spare, started⟩ := primed handed.tail doubt wired₀
  have wired := wires doubt wired₀
  exact wired.pushStack plain watched (wired.tidy.pushStack spare) started lasts

omit calms in
theorem pushCapped_calm {w₀ w : World π} (before : Calm rules w₀ w) {s : Stack π}
    (primed : Primed rules w₀ w s) (lasts : s.isSourced = false → s.active = true)
    (effect : EffectName) (value : UInt32) :
    (pushCapped effect s value).Yields w fun _ w' => Calm rules w₀ w' := by
  refine pushCapped_cases (fun _ => released_calm plain watched before s.detach) fun _ => ?_
  exact pushStack_calm plain watched before (s := { s with value := value }) primed lasts effect

theorem placeStack_calm {w₀ w : World π} (before : Calm rules w₀ w) {s : Stack π}
    (primed : Primed rules w₀ w s) (definition : EffectDefinition π) :
    (placeStack nested rules definition s).Yields w fun _ w' => Calm rules w₀ w' := by
  have capped (active : s.active = true) (value : UInt32) :
      (pushCapped definition.effect s value).Yields w fun _ w' => Calm rules w₀ w' :=
    pushCapped_calm plain watched before primed (fun _ => active) definition.effect value
  refine placeStack_cases (fun _ _ => released_calm plain watched before s.detach)
    (fun sourced => ?_) (fun _ active _ => capped active _) (fun _ active _ _ => capped active _)
    fun target _ _ => ?_
  · refine pushStack_calm plain watched before primed (fun sourceless => ?_) definition.effect
    rw [sourced] at sourceless
    cases sourceless
  · exact (Calm.steady rules).yields before (mergeStack_calm plain watched calms definition target s)

theorem addStackOf_calm {w₀ w : World π} (before : Calm rules w₀ w) {s : Stack π}
    (fresh : w₀.entity.Tidy → s.Fresh) (definition : EffectDefinition π)
    (source : Option SourceTag) :
    (addStackOf nested rules definition s source).Yields w fun _ w' => Calm rules w₀ w' := by
  have steady := Calm.steady rules
  refine addStackOf_cases (fun _ _ w₂ => Calm rules w₀ w₂) ?places
    (fun _ outcome w₂ placed _ => ?settles) (fun _ _ placed _ => placed)
    fun _ w₂ placed _ => ?empties
  case places =>
    refine (steady.yields before (ensureLive_calm plain watched definition)).mono
      fun created w₁ ensured s' attached handle => ?_
    have asked : Calm rules w₀ { w₁ with
        entity := w₁.entity.takeHandle.2
        trace := .consulted w₁.entity.takeHandle.2 :: w₁.trace } := by
      refine Carries.record (ensured.put fun doubt wired => ?_)
      exact wired.of_same plain watched wired.tidy.takeHandle rfl rfl rfl rfl
    have fresh' (tidy : w₀.entity.Tidy) : ({ s with
        duration := stackDuration definition s.duration
        id := w₁.entity.nextHandle } : Stack π).Fresh := by
      obtain ⟨attached, unarmed⟩ := fresh tidy
      refine ⟨attached, ?_⟩
      change (stackDuration definition s.duration).Unarmed
      cases given : s.duration with
      | absent => exact Condition.unarmed_pristine definition.duration
      | node head next alternative =>
          rw [given] at unarmed
          exact unarmed
    refine placeStack_calm plain watched calms asked (fun handed doubt wired₀ => ⟨?_, ?_⟩) definition
    · rw [handle]
      exact ((ensured handed.tail).2 doubt wired₀).tidy.spare
    · rw [← attached]
      exact (fresh' wired₀.tidy).attach (rules.readings w₁.entity.takeHandle.2) source
  case settles =>
    refine (steady.yields placed (settleStacks_calm plain watched calms _)).mono
      fun _ w₃ settled => ?_
    exact steady.yields settled (runHook_keeps steady fun _ _ => calms _)
  case empties =>
    exact steady.yields placed (removeIfEmpty_keeps steady (removeLive_calm plain watched calms _))

theorem addStack_calm (effect : EffectName) {s : Stack π} (fresh : s.Fresh)
    (source : Option SourceTag) : (addStack nested rules effect s source).Keeps (Calm rules) := by
  intro w
  have before := (Calm.steady rules).refl w
  refine addStack_cases (fun _ => released_calm plain watched before s) fun d _ _ => ?_
  exact addStackOf_calm plain watched calms before (fun _ => fresh) d source

theorem addModifier_calm {m : Modifier π} (fresh : m.Fresh) (source : Option SourceTag) :
    (addModifier nested rules m source).Keeps (Calm rules) := by
  refine fun w => addModifier_cases ?_ fun d _ _ => ?_
  · exact insertModifier_calm plain watched calms ((Calm.steady rules).refl w) (fun _ => fresh) source
  · have released : Calm rules w { w with
        entity := w.entity.acquireStack.2.releaseModifier m } := by
      refine .of_entity fun doubt wired => ?_
      exact wired.of_same plain watched (wired.tidy.acquireStack.releaseModifier m) rfl rfl rfl rfl
    refine addStackOf_calm plain watched calms released (fun tidy => ⟨?_, fresh.2⟩) d source
    change w.entity.acquireStack.1.attached = false
    rw [tidy.acquireStack_fst]
    rfl

/-! ### Events -/

omit plain watched calms in
theorem apply_renews {c : Condition π} (armed : c.Armed) (stimulus : Stimulus) (r : Readings) :
    c.Renews r (Stimulus.apply stimulus r c).1 := by
  cases stimulus with
  | time delta => exact Condition.tick_renews armed delta r
  | stat name => exact Condition.observe_renews armed name r
  | restart => exact Condition.restart_renews armed r

omit plain watched calms in
theorem watches_apply (fixed : FixedWatch π) {c : Condition π} {stimulus : Stimulus} {r : Readings}
    {stat : StatName} (watches : (Stimulus.apply stimulus r c).1.Watches stat) : c.Watches stat :=
  (Condition.wants_apply (i := .stat stat) fixed stimulus r c).1 watches

omit plain watched calms in
theorem holds_apply {c : Condition π} {stimulus : Stimulus} {r : Readings}
    (heard : stimulus ≠ .restart) (unchanged : (Stimulus.apply stimulus r c).2 = false) (sourced : Bool) :
    (Stimulus.apply stimulus r c).1.holds sourced = c.holds sourced := by
  cases stimulus with
  | time delta => exact Condition.verdict_tick unchanged sourced false
  | stat name => exact Condition.verdict_observe unchanged sourced false
  | restart => exact absurd rfl heard

/-- What an event leaves in doubt: a look at a stat ends the doubt of the owner about it. -/
def heard (owner : Owner) (stimulus : Stimulus) (doubt : Doubt) : Doubt :=
  fun other stat => doubt other stat ∧ ¬(other = owner ∧ stimulus = .stat stat)

omit calms in
/-- After an event the owner is pending if any result changed. Restarts are not told, which does not
matter to owners without an activity. -/
theorem stimulate_carries (owner : Owner) (stimulus : Stimulus)
    (told : stimulus ≠ .restart ∨ ∃ effect serial index, owner = .custom effect serial index)
    (w : World π) :
    (stimulate rules owner stimulus).Yields w fun changed w' =>
      Carries rules none (if changed then some owner else none) (heard owner stimulus) w w' := by
  rw [stimulate, yields_bind]
  refine (updateCondition_yields plain _ _ w).mono fun result w₁ updated => ?_
  cases result with
  | none =>
      obtain ⟨absent, rfl⟩ := updated
      rw [yields_pure, if_neg (by decide)]
      refine fun handed => ⟨handed, fun doubt wired => ?_⟩
      refine wired.tighten fun _ other c gate bears _ stat stale doubtful => ⟨doubtful, ?_⟩
      rintro ⟨rfl, -⟩
      rw [← wired.tidy.condition_of_bears bears, absent] at stale
      obtain ⟨_, member, _⟩ := stale
      exact List.not_mem_nil member
  | some changed =>
      obtain ⟨c, gate, bears, rfl, rfl⟩ := updated
      simp only [yields_bind, yields_record, yields_pure]
      refine fun handed => ⟨handed.tail.tail, fun doubt wired => ?_⟩
      have seated := wired.seated owner c gate bears
      have renews := apply_renews seated.armed stimulus (rules.readings w.entity)
      have pending : (w.entity.setCondition owner
          (Stimulus.apply stimulus (rules.readings w.entity) c).1).Wired rules (some owner) doubt :=
        wired.setCondition plain watched bears renews ⟨false, ∅⟩ fun fixed stat watches =>
          .inl (seated.watched fixed stat (watches_apply fixed watches))
      have revised := wired.tidy.revises_setCondition bears
        (Stimulus.apply stimulus (rules.readings w.entity) c).1
      have reads := rules.readings_eq plain (Entity.sameAt_setCondition w.entity owner
        (Stimulus.apply stimulus (rules.readings w.entity) c).1)
      have tight : (w.entity.setCondition owner
          (Stimulus.apply stimulus (rules.readings w.entity) c).1).Wired rules (some owner)
            (heard owner stimulus doubt) := by
        refine pending.tighten fun _ other d gate' bears' _ stat stale doubtful => ⟨doubtful, ?_⟩
        rintro ⟨rfl, rfl⟩
        obtain ⟨rfl, -⟩ := revised.own d gate' bears'
        rw [reads] at stale
        exact Condition.observe_fresh seated.armed stat (rules.readings w.entity) stale
      split
      · exact tight
      · rename_i unchanged
        refine tight.settled fun d g bears' => ?_
        obtain ⟨rfl, rfl⟩ := revised.own d (some g) bears'
        rcases told with heard | ⟨effect, serial, index, rfl⟩
        · rw [holds_apply heard (Bool.eq_false_iff.2 unchanged)]
          exact seated.active g rfl (Option.some_ne_none owner)
        · cases bears

omit plain watched calms in
/-- A custom effect has no activity to wait for. -/
theorem Carries.settled {pending : Option Owner} {effect : EffectName} {serial : Handle}
    {index : Nat} {change : Doubt → Doubt} {w w' : World π}
    (carries : Carries rules pending (some (.custom effect serial index)) change w w') :
    Carries rules pending none change w w' := by
  intro handed
  obtain ⟨handed₀, wires⟩ := carries handed
  refine ⟨handed₀, fun doubt wired => (wires doubt wired).settled fun c g bears => ?_⟩
  cases bears

theorem react_carries (owner : Owner) (w : World π) :
    (react nested rules owner).Yields w fun _ w' =>
      Carries rules (some owner) none (fun doubt => doubt) w w' := by
  cases owner with
  | modifier stat id => exact modifierStimulated_carries plain watched calms stat id w
  | stack effect id => exact stackStimulated_carries plain watched calms effect id w
  | custom effect serial index =>
      have restarts : (stimulate rules (.custom effect serial index) .restart).Keeps
          (Calm rules) := by
        intro w
        refine (stimulate_carries plain watched _ _ (.inr ⟨_, _, _, rfl⟩) w).mono
          fun changed w' carries => ?_
        have settled : Carries rules none none (heard (.custom effect serial index) .restart)
            w w' := by
          cases changed with
          | true => exact Carries.settled carries
          | false => exact carries
        exact settled.mono fun _ _ _ some => some.1
      have calm := customStimulated_keeps (Calm.steady rules) effect serial index
        (fun _ _ _ _ => calms _) restarts
      have start : Carries rules (some (.custom effect serial index)) none (fun doubt => doubt)
          w w := Carries.settled fun handed => ⟨handed, fun _ wired => wired⟩
      exact (calm w).mono fun _ w' done => start.trans done

/-- An owner that was exposed to the change of a stat is in no doubt about it. -/
theorem expose_carries (owner : Owner) (stimulus : Stimulus) (told : stimulus ≠ .restart)
    (w : World π) :
    (expose nested rules owner stimulus).Yields w fun _ w' =>
      Carries rules none none (heard owner stimulus) w w' := by
  rw [expose, yields_bind]
  refine (stimulate_carries plain watched owner stimulus (.inl told) w).mono
    fun changed w₁ carries => ?_
  apply yields_ite
  · intro yes
    rw [if_pos yes] at carries
    exact (react_carries plain watched calms owner w₁).mono fun _ w' done => carries.trans done
  · intro no
    rw [if_neg no] at carries
    rw [yields_pure]
    exact carries

/-- The doubt during the round of an announcement: about its stat, only for owners still to come. -/
def Doubt.during (stat : StatName) (rest : List Owner) (doubt : Doubt) : Doubt :=
  fun owner other => (other = stat ∧ owner ∈ rest) ∨ (other ≠ stat ∧ doubt owner other)

theorem announceStat_carries (stat : StatName) :
    (announceStat nested rules stat).Keeps ((Request.announce stat).Calms rules) := by
  intro w
  rw [announceStat, yields_bind, yields_record, yields_bind, yields_entity]
  have start : Carries rules none none (Doubt.during stat (w.entity.watchers.get stat)) w
      { w with trace := .statChanged stat w.entity :: w.trace } := by
    refine fun handed => ⟨handed.tail, fun doubt wired => ?_⟩
    refine wired.tighten fun _ owner c gate bears hears other stale doubtful => ?_
    by_cases here : other = stat
    · subst here
      obtain ⟨n, member, watches, -⟩ := stale
      exact .inl ⟨rfl, hears other ⟨n, member, watches⟩⟩
    · exact .inr ⟨here, doubtful⟩
  refine (yields_forM (fun rest w' => Carries rules none none (Doubt.during stat rest) w w')
    (fun owner rest w₁ before => ?_) _ _ start).mono fun _ w' done => ?_
  · rw [yields_bind, yields_entity]
    apply yields_ite
    · intro _
      refine (expose_carries plain watched calms owner (.stat stat) nofun w₁).mono fun _ w' exposed => ?_
      refine (before.trans exposed).mono fun doubt other t ⟨doubtful, unheard⟩ => ?_
      rcases doubtful with ⟨rfl, waits⟩ | elsewhere
      · refine .inl ⟨rfl, (List.mem_cons.1 waits).resolve_left ?_⟩
        exact fun same => unheard ⟨same, rfl⟩
      · exact .inr elsewhere
    · intro left
      rw [yields_pure]
      intro handed
      obtain ⟨handed₀, wires⟩ := before handed
      refine ⟨handed₀, fun doubt wired => ?_⟩
      refine (wires doubt wired).tighten fun _ other c gate bears hears t stale doubtful => ?_
      rcases doubtful with ⟨rfl, waits⟩ | elsewhere
      · refine .inl ⟨rfl, (List.mem_cons.1 waits).resolve_left ?_⟩
        rintro rfl
        obtain ⟨n, member, watches, -⟩ := stale
        exact left (hears t ⟨n, member, watches⟩)
      · exact .inr elsewhere
  · refine done.mono fun doubt owner other doubtful => ?_
    exact doubtful.resolve_left fun ⟨_, member⟩ => List.not_mem_nil member

/-! ### Calls -/

omit calms in
theorem aside_calm {w : World π} {e : Entity π} (tidy : w.entity.Tidy → e.Tidy)
    (values : e.values = w.entity.values) (modifiers : e.modifiers = w.entity.modifiers)
    (effects : e.effects = w.entity.effects) (watchers : e.watchers = w.entity.watchers) :
    Calm rules w { w with entity := e } :=
  .of_entity fun _ wired =>
    wired.of_same plain watched (tidy wired.tidy) values modifiers effects watchers

theorem setStat_calm (stat : StatName) (change : StatValue → StatValue) :
    (setStat nested rules stat change).Keeps (Calm rules) := by
  refine setStat_keeps (Calm.steady rules) (fun change w => ?_) (fun w modifying => ?_)
    (fun _ _ _ _ => calms _) change
  · simp only [yields_bind, yields_modifyEntity]
    refine (calms (.announce stat) _).mono fun _ w' told => ?_
    refine Carries.announced (.of_entity fun doubt wired => ?_) told
    refine wired.sheds plain watched { wired.tidy with } (fun _ _ => .inr) (fun other => ?_)
      (.of_same rfl rfl rfl)
    by_cases here : other = stat
    · exact .inl fun _ => .inl (List.mem_singleton.2 here)
    · exact .inr ⟨Table.get?_insert_of_ne _ _ here, rfl⟩
  · exact aside_calm plain watched (fun tidy => { tidy with }) rfl rfl rfl rfl

theorem performWith_calm {c : Call π} (fresh : c.Fresh) :
    (performWith nested rules c).Keeps (Calm rules) := by
  have steady := Calm.steady rules
  have settles := settle_calm plain watched calms
  cases c with
  | setBase stat value =>
      exact setStat_calm plain watched calms stat fun v => { v with base := value }
  | setCurrent stat value =>
      exact setStat_calm plain watched calms stat fun v => { v with current := value }
  | acquireModifier => exact acquireModifier_calm plain watched
  | acquireStack =>
      exact calm_updateEntity fun _ _ wired =>
        wired.of_same plain watched wired.tidy.acquireStack rfl rfl rfl rfl
  | addModifier m source => exact addModifier_calm plain watched calms fresh source
  | removeModifier id =>
      refine removeModifier_keeps steady (fun stat w => ?_)
        fun stat => removeModifierAt_calm plain watched calms stat id
      rw [yields_record]
      exact (steady.refl w).record
  | removeModifiersOf source => exact removeModifiersOf_calm plain watched calms source
  | copyModifiers other source => exact copyModifiers_calm plain watched calms _
  | addStack effect s source => exact addStack_calm plain watched calms effect fresh source
  | replaceStack effect s source =>
      exact replaceStack_keeps steady effect s source (releaseStack_calm plain watched s)
        (fun tag _ => removeStacksOf_calm plain watched calms effect tag)
        (addStack_calm plain watched calms effect fresh source)
  | removeStack effect id => exact removeStack_calm plain watched calms effect id
  | removeStacksOf effect source => exact removeStacksOf_calm plain watched calms effect source
  | reduceStacks effect amount => exact reduceStacks_calm plain watched calms effect amount
  | removeEffect effect =>
      exact removeEffect_keeps steady (removeLive_calm plain watched calms effect)
  | refreshImmunity => exact refreshImmunity_keeps steady settles
  | passTime delta =>
      refine passTime_keeps steady (Calm.timeless rules)
        (fun _ _ w => aside_calm plain watched (fun tidy => { tidy with }) rfl rfl rfl rfl)
        fun owner w => ?_
      exact (expose_carries plain watched calms owner (.time delta) nofun w).mono fun _ w' exposed =>
        exposed.mono fun _ _ _ some => some.1

theorem runScript_calm {α : Type} (script : Script π α) :
    (runScriptWith nested rules script).Keeps (Calm rules) := by
  refine runScriptWith_keeps (Calm.steady rules) (Calm.ignored rules) (fun c w => ?_) script
  intro reply w' ends handed
  -- The trace tells that the call handed in only what is fresh.
  have fresh : c.Fresh := handed c reply w'.entity (List.mem_cons_self ..)
  exact performWith_calm plain watched calms fresh w reply w' ends handed.tail

omit calms in
theorem serve_calms (levels : Nat) (r : Request π) :
    (serve rules levels r).Keeps (r.Calms rules) := by
  refine serve_keeps (fun r => r.Calms rules) (fun nested calms stat => ?_)
    (fun nested calms hook script => ?_) levels r
  · exact announceStat_carries plain watched calms stat
  · exact runHookScript_keeps (Calm.steady rules) (Calm.ignored rules)
      (fun w running handed => ⟨handed, fun _ wired => wired⟩) hook
      (runScript_calm plain watched calms script)

end Engine

/-! ### Runs -/

omit [CustomTrigger π] in
theorem ConditionTypes.unarmed_build {types : ConditionTypes π} {form : ConditionForm}
    {c : Condition π} (built : types.build form = .ok c) : c.Unarmed := by
  induction form generalizing c with
  | absent =>
      cases built
      exact .absent
  | node tag negated restartsOnMet ignoresSourced params next alternative ihNext ihAlternative =>
      rw [ConditionTypes.build] at built
      split at built
      · cases built
      · rename_i builder _
        cases trigger : builder params with
        | error e =>
            rw [trigger] at built
            cases built
        | ok t =>
            cases left : types.build next with
            | error e =>
                rw [trigger, left] at built
                cases built
            | ok next' =>
                cases right : types.build alternative with
                | error e =>
                    rw [trigger, left, right] at built
                    cases built
                | ok alternative' =>
                    rw [trigger, left, right] at built
                    cases built
                    exact Condition.unarmed_node.2 ⟨rfl, ihNext left, ihAlternative right⟩

omit [CustomTrigger π] in
theorem ModifierForm.fresh_build {types : ConditionTypes π} {form : ModifierForm} {m : Modifier π}
    (built : form.build types = .ok m) : m.Fresh := by
  unfold ModifierForm.build at built
  cases duration : types.build form.duration with
  | error e =>
      rw [duration] at built
      cases built
  | ok c =>
      rw [duration] at built
      cases built
      exact ⟨rfl, ConditionTypes.unarmed_build duration⟩

omit [CustomTrigger π] in
theorem StackForm.fresh_build {types : ConditionTypes π} {form : StackForm} {s : Stack π}
    (built : form.build types = .ok s) : s.Fresh := by
  unfold StackForm.build at built
  cases duration : types.build form.duration with
  | error e =>
      rw [duration] at built
      cases built
  | ok c =>
      rw [duration] at built
      cases built
      exact ⟨rfl, ConditionTypes.unarmed_build duration⟩

/-- Between calls every tree is wired and no doubt is left. -/
theorem Reached.wired (plain : rules.statRules = ∅) (watched : WatchedOnly π)
    {snapshots : Snapshot → Prop} {w : World π}
    (reached : Reached rules snapshots (fun _ c => c.Fresh) w) (handed : Handed w.trace) :
    w.entity.Wired rules none Doubt.none := by
  have start {e : Entity π} (tidy : e.Tidy) (modifiers : e.modifiers = .empty)
      (effects : e.effects = ∅) : e.Wired rules none Doubt.none := by
    refine ⟨tidy, fun owner c gate bears => ?_⟩
    cases bears with
    | modifier member =>
        rw [modifiers] at member
        cases member
    | stack lives _ =>
        rw [effects] at lives
        cases lives
    | custom lives _ =>
        rw [effects] at lives
        cases lives
  induction reached with
  | new => exact start .new rfl rfl
  | @restored levels snapshot w _ restores =>
      have calms := Engine.serve_calms plain watched levels
      have calm : Act.Keeps (Calm rules) (snapshot.addParts rules levels).run :=
        Engine.addParts_keeps (Calm.steady rules)
          (fun form _ m built w => Engine.insertModifier_calm plain watched calms
            ((Calm.steady rules).refl w) (fun _ => ModifierForm.fresh_build built) form.source)
          (fun effect form s built => Engine.addStack_calm plain watched calms effect
            (StackForm.fresh_build built) form.source)
      exact (calm _ _ _ restores handed).2 _ (start { Entity.Tidy.new with } rfl rfl)
  | @called levels w w' c reply _ fresh returns ih =>
      have calms := Engine.serve_calms plain watched levels
      obtain ⟨before, wires⟩ := Engine.performWith_calm plain watched calms fresh _ _ _ returns handed
      exact wires _ (ih before)

/-- Between calls every tree is exact, if the triggers of the game keep watching what they watch. -/
theorem Reached.exact (plain : rules.statRules = ∅) (watched : WatchedOnly π) (fixed : FixedWatch π)
    {snapshots : Snapshot → Prop} {w : World π}
    (reached : Reached rules snapshots (fun _ c => c.Fresh) w) (handed : Handed w.trace)
    {owner : Owner} {c : Condition π} {gate : Option Gate} (bears : w.entity.Bears owner c gate) :
    c.Exact (rules.readings w.entity) := by
  have seated := (reached.wired plain watched handed).seated owner c gate bears
  exact Condition.exact_of_fresh seated.armed seated.placid (seated.certain fixed)

/-- Whenever an outermost call comes back, every node of every condition tree reacts to events, every
modifier and stack is active exactly if its duration lets it, and the ones without a source are. If
time and restarts leave alone what the triggers of the game watch, every node also keeps the result
that its trigger has for the stats as they are. -/
theorem conditions_up_to_date (plain : rules.statRules = ∅) (watched : WatchedOnly π)
    {snapshots : Snapshot → Prop} {w : World π}
    (reached : Reached rules snapshots (fun _ c => c.Fresh) w) (handed : Handed w.trace) :
    (∀ stat, ∀ m ∈ w.entity.modifiers.get stat,
      m.duration.Armed ∧ (FixedWatch π → m.duration.Exact (rules.readings w.entity)) ∧
        m.active = !m.duration.holds m.isSourced ∧ (m.isSourced = false → m.active = true)) ∧
    ∀ effect live, w.entity.effects.get? effect = some live →
      (∀ s ∈ live.held,
        s.duration.Armed ∧ (FixedWatch π → s.duration.Exact (rules.readings w.entity)) ∧
          s.active = !s.duration.holds s.isSourced ∧ (s.isSourced = false → s.active = true)) ∧
      ∀ c ∈ live.conditions,
        c.Armed ∧ (FixedWatch π → c.Exact (rules.readings w.entity)) := by
  have wired := reached.wired plain watched handed
  have exact {owner : Owner} {c : Condition π} {gate : Option Gate}
      (bears : w.entity.Bears owner c gate) (fixed : FixedWatch π) :
      c.Exact (rules.readings w.entity) := reached.exact plain watched fixed handed bears
  refine ⟨fun stat m member => ?_, fun effect live lives => ⟨fun s member => ?_, fun c member => ?_⟩⟩
  · have seated := wired.seated _ _ _ (.modifier member)
    exact ⟨seated.armed, exact (.modifier member), seated.active _ rfl nofun, seated.lasts _ rfl⟩
  · have seated := wired.seated _ _ _ (.stack lives member)
    exact ⟨seated.armed, exact (.stack lives member), seated.active _ rfl nofun, seated.lasts _ rfl⟩
  · obtain ⟨index, placed⟩ := List.mem_iff_getElem?.1 member
    exact ⟨(wired.seated _ _ _ (.custom lives placed)).armed, exact (.custom lives placed)⟩

def ward : Modifier Empty :=
  { (Modifier.ofParts "health" .add 10 : Modifier Empty) with
    duration := .ofTrigger (.threshold ⟨"health", .greaterEquals, 100, true⟩) }

def healthRules : Rulebook Empty :=
  ((Rulebook.builtin.registerStat "health" 100).toOption).getD .builtin

/-- The modifier starts at rest, wakes when the full value grows, which makes that value grow
further, and rests again when health is filled up. -/
theorem ward_up_to_date : ∃ (w : World Empty) (m : Modifier Empty),
    healthRules.statRules = ∅ ∧ WatchedOnly Empty ∧ FixedWatch Empty ∧
      Reached healthRules (fun _ => True) (fun _ c => c.Fresh) w ∧ Handed w.trace ∧
      m ∈ w.entity.modifiers.get "health" ∧ m.isSourced = true ∧ m.active = false ∧
      m.duration.Exact (healthRules.readings w.entity) ∧
      m.active = !m.duration.holds m.isSourced := by
  have made : ((Engine.performAll healthRules 8
      [.addModifier ward (some "item"), .addModifier (.ofParts "health" .add 10) none,
        .setCurrent "health" 120] (.ofEntity .new)).any fun w =>
      (w.trace.all fun | .called .. => false | _ => true) &&
        (w.entity.modifiers.get "health").any fun m => m.isSourced && !m.active) = true := by
    decide +kernel
  obtain ⟨w, run, checked⟩ := (Option.any_eq_true ..).1 made
  rw [Bool.and_eq_true] at checked
  obtain ⟨m, member, passes⟩ := List.any_eq_true.1 checked.2
  rw [Bool.and_eq_true, Bool.not_eq_true'] at passes
  have reached : Reached healthRules (fun _ => True) (fun _ c => c.Fresh) w := by
    refine Engine.reached_of_performAll .new (fun c listed _ => ?_) run
    simp only [List.mem_cons, List.not_mem_nil, or_false] at listed
    rcases listed with rfl | rfl | rfl
    · exact (by decide : ward.Fresh)
    · exact (by decide : (Modifier.ofParts "health" .add 10 : Modifier Empty).Fresh)
    · trivial
  have handed : Handed w.trace := by
    intro c reply seen called
    have none := List.all_eq_true.1 checked.1 _ called
    cases none
  have watched : WatchedOnly Empty := nofun
  have fixed : FixedWatch Empty := ⟨nofun, nofun⟩
  obtain ⟨-, exact, active, -⟩ :=
    (conditions_up_to_date rfl watched reached handed).1 "health" m member
  exact ⟨w, m, rfl, watched, fixed, reached, handed, member, passes.1, passes.2, exact fixed, active⟩

/-- A lookout turns from health to mana, and is not told when there is mana. -/
theorem scout_out_of_date : ∃ (w : World Lookout) (m : Modifier Lookout),
    (Rulebook.builtin : Rulebook Lookout).statRules = ∅ ∧ WatchedOnly Lookout ∧
      Reached .builtin (fun _ => True) (fun _ c => c.Fresh) w ∧ Handed w.trace ∧
      m ∈ w.entity.modifiers.get "attack" ∧
      ¬m.duration.Exact (Rulebook.builtin.readings w.entity) := by
  have made : ((Engine.performAll .builtin 4
      [.addModifier scout (some "item"), .passTime 1, .setCurrent "mana" 100]
      (.ofEntity .new)).any fun w : World Lookout =>
      (w.trace.all fun | .called .. => false | _ => true) &&
        (w.entity.modifiers.get "attack").any fun m => m.duration.nodes.any fun n =>
          n.met != n.outcome (Rulebook.builtin.readings w.entity)) = true := by
    decide +kernel
  obtain ⟨w, run, checked⟩ := (Option.any_eq_true ..).1 made
  rw [Bool.and_eq_true] at checked
  obtain ⟨m, member, stale⟩ := List.any_eq_true.1 checked.2
  obtain ⟨n, inside, differs⟩ := List.any_eq_true.1 stale
  have reached : Reached .builtin (fun _ => True) (fun _ c => c.Fresh) w := by
    refine Engine.reached_of_performAll .new (fun c listed _ => ?_) run
    simp only [List.mem_cons, List.not_mem_nil, or_false] at listed
    rcases listed with rfl | rfl | rfl
    · exact (by decide : scout.Fresh)
    · trivial
    · trivial
  have handed : Handed w.trace := by
    intro c reply seen called
    have none := List.all_eq_true.1 checked.1 _ called
    cases none
  exact ⟨w, m, rfl, Lookout.watchedOnly, reached, handed, member, fun exact =>
    bne_iff_ne.1 differs (exact n inside).2⟩

end StatusEffects
