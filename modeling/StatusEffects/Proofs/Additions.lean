import StatusEffects.Proofs.Counter
import StatusEffects.Proofs.Handles
import StatusEffects.Proofs.Stacking

/-!
What an addition tells of is there.

When a stack has joined an effect that nothing else depends on, settling the effect leaves the stack
where it is. A stack that took in another one is there likewise, unless the merged duration ends it:
then it goes before the addition comes back, and its handle is not given again.
-/

set_option autoImplicit false

namespace StatusEffects

variable {π : Type} [CustomTrigger π]

def Rulebook.handOver (rules : Rulebook π) (d : EffectDefinition π) (e : Entity π) (s : Stack π)
    (source : Option SourceTag) : Stack π :=
  ({ s with duration := Engine.stackDuration d s.duration, id := e.nextHandle }).attach
    (rules.readings e.takeHandle.2) source

/-- The duration that a stack has once another one has been merged into it. -/
def Rulebook.merge (rules : Rulebook π) (d : EffectDefinition π) (e : Entity π) (target : Handle)
    (incoming : Stack π) : Condition π :=
  match e.condition (.stack d.effect target) with
  | .absent => .absent
  | .node head next alternative =>
    Engine.mergedDuration d.stacking
      (rules.readings (e.setCondition (.stack d.effect target) .absent))
      (.node head next alternative) incoming.duration

omit [CustomTrigger π] in
/-- Whether an active stack that nobody owns stays active depends on its new duration alone. -/
theorem Stack.refresh_merged {t : Stack π} (active : t.active = true) (unowned : t.isSourced = false)
    (c : Condition π) (value : UInt32) :
    ({ t with duration := c, value := value } : Stack π).refresh =
      ({ t with duration := c, value := value, active := !c.holds false }, c.holds false) := by
  have due : ({ t with duration := c, value := value } : Stack π).shouldBeActive =
      !c.holds false := by
    unfold Stack.shouldBeActive
    rw [← unowned]
    rfl
  unfold Stack.refresh
  rw [due]
  dsimp only
  rw [active]
  cases c.holds false <;> rfl

namespace Entity

variable {e e' : Entity π} {effect : EffectName} {id : Handle}

omit [CustomTrigger π] in
theorem holds_stack_iff : e.Holds id (.stack effect) ↔ ∃ s, e.stack? effect id = some s := by
  constructor
  · rintro ⟨live, found, s, member, same⟩
    have some : (live.stack? id).isSome = true :=
      List.find?_isSome.2 ⟨s, member, decide_eq_true same⟩
    rw [Entity.stack?, found]
    exact Option.isSome_iff_exists.1 some
  · rintro ⟨s, stack⟩
    obtain ⟨live, found, there⟩ := Option.bind_eq_some_iff.1 stack
    exact ⟨live, found, s, List.mem_of_find?_eq_some there, LiveEffect.id_of_stack? there⟩

omit [CustomTrigger π] in
theorem Tidy.lost_detachStack? (tidy : e.Tidy) (detached : e.detachStack? effect id = some e') :
    ¬e'.Holds id (.stack effect) := by
  rintro ⟨live, found, s, member, same⟩
  rw [tidy.effects_detachStack? detached, Table.get?_modify, if_pos rfl] at found
  obtain ⟨before, -, rfl⟩ := Option.map_eq_some_iff.1 found
  have kept := (List.mem_filter.1 member).2
  rw [same] at kept
  simp at kept

structure Lost (effect : EffectName) (id : Handle) (e : Entity π) : Prop where
  numbered : e.Numbered
  given : id < e.nextHandle
  gone : ¬e.Holds id (.stack effect)

theorem Lost.leads (lost : e.Lost effect id) (leads : e.Leads e') : e'.Lost effect id := by
  have precedes := leads lost.numbered
  refine ⟨precedes.numbered, Nat.lt_of_lt_of_le lost.given precedes.handles, fun holds => ?_⟩
  exact lost.gone (precedes.holds id _ lost.given holds)

end Entity

theorem Reached.numbered {rules : Rulebook π} {snapshots : Snapshot → Prop}
    {calls : Entity π → Call π → Prop} {w : World π} (reached : Reached rules snapshots calls w) :
    w.entity.Numbered := by
  obtain ⟨states, chronicle⟩ := reached.chronicle
  obtain ⟨earlier, rfl⟩ := chronicle.latest
  exact chronicle.numbered _ (List.mem_cons_self ..)

omit [CustomTrigger π] in
theorem Shows.across {S : Entity π → Entity π → Prop} {w w' : World π} (shows : Shows S w w') :
    S w.entity w'.entity := by
  obtain ⟨recent, -, shown⟩ := shows
  exact (List.pairwise_append.1 shown).2.2 _ (List.mem_cons_self ..) _ (List.mem_singleton_self _)

namespace Engine

open Act

variable {nested : Nested π} {rules : Rulebook π} {d : EffectDefinition π} {s t : Stack π}
  {id target : Handle}

/-! ### Settling -/

theorem settle_bounded {effect : EffectName} {live : LiveEffect π} {w : World π}
    (found : w.entity.effects.get? effect = some live) :
    (settle nested rules effect).Yields w fun _ _ => live.activeSum < UInt32.size := by
  rw [settle, yields_bind]
  refine (recount_stores effect w).mono fun v w₁ stored => ?_
  cases v with
  | none =>
      rw [found] at stored
      cases stored.2
  | some v =>
      obtain ⟨other, there, count, -⟩ := stored
      rw [found] at there
      cases there
      exact fun _ _ _ => count ▸ v.count.toNat_lt

section

variable (registered : rules.effects.get? d.effect = some d) (unhooked : d.Unhooked)
  (bare : d.modifiers = [])

include registered unhooked bare

variable (nested) in
theorem settle_stores {live : LiveEffect π} (stocked : live.Stocked d) (filled : live.held ≠ [])
    {w : World π} (found : w.entity.effects.get? d.effect = some live) :
    (settle nested rules d.effect).Yields w fun _ w' =>
      ∃ count active, w'.entity = w.entity.storeCount d.effect count active := by
  intro _ w' returns
  have bounded : live.activeSum < UInt32.size := settle_bounded found () w' returns
  obtain ⟨v, counted, runs⟩ := settle_run nested registered unhooked bare found bounded
  obtain ⟨w₁, same, run⟩ := runs w rfl
  have there : (w.entity.storeCount d.effect v.count v.active).effects.get? d.effect =
      some { live with count := v.count, active := v.active } :=
    Entity.get?_storeCount found ..
  have drained (zero : v.count = 0) : ∀ s ∈ live.held, s.isSourced = true := by
    have none : live.activeSum = 0 := by
      rw [← UInt32.toNat_ofNat_of_lt' bounded]
      exact congrArg UInt32.toNat (counted.symm.trans zero)
    rw [LiveEffect.activeSum_eq] at none
    exact stocked.drained (List.Sublist.refl _) none
  have ends : (settleEnd nested rules d.effect v).Brings _ () _ := settleEnd_brings there filled drained
  obtain ⟨w₂, ends, left⟩ := ends w₁ same
  rw [run, ends] at returns
  cases returns
  exact ⟨v.count, v.active, left⟩

/-- A stack that has joined is there when its effect has been settled. -/
theorem settleStacks_holds {w : World π} (sound : SoundBut rules (· = d.effect) w)
    (holds : w.entity.Holds id (.stack d.effect)) :
    (settleStacks nested rules d.effect).Yields w fun _ w' =>
      w'.entity.Holds id (.stack d.effect) := by
  obtain ⟨live, found, s, member, same⟩ := holds
  obtain ⟨d', registered', stocked⟩ := sound.stocked d.effect live found
  rw [registered] at registered'
  cases registered'
  rw [settleStacks, announceStacks, yields_bind, yields_record]
  have settles := settle_stores nested registered unhooked bare stocked (List.ne_nil_of_mem member)
    (w := { w with trace := .stacksChanged d.effect w.entity :: w.trace }) found
  refine settles.mono fun _ w' stored => ?_
  obtain ⟨count, active, left⟩ := stored
  rw [left]
  exact ⟨{ live with count := count, active := active }, Entity.get?_storeCount found .., s, member,
    same⟩

end

/-- Whatever settling an effect brings about, a handle that stands for no stack any more does not
stand for one again. -/
theorem settleStacks_lost {levels : Nat} {effect : EffectName} {w : World π}
    (lost : w.entity.Lost effect id) :
    (settleStacks (serve rules levels) rules effect).Yields w fun _ w' => w'.entity.Lost effect id := by
  have admits := admits_leads rules
  have shows : (settleStacks (serve rules levels) rules effect).Yields w fun _ w' =>
      Shows Entity.Leads w w' :=
    settleStacks_tightens admits.follows (admits.serve levels) (admits.steady.refl w)
  exact shows.mono fun _ w' shown => lost.leads shown.across

/-! ### Merging -/

theorem stackFlipped_lost {levels : Nat} {effect : EffectName} {w : World π}
    (numbered : w.entity.Numbered) (stack : w.entity.stack? effect id = some s)
    (inactive : s.active = false) (unowned : s.isSourced = false) :
    (stackFlipped (serve rules levels) rules effect id).Yields w fun _ w' =>
      w'.entity.Lost effect id := by
  have holds : w.entity.Holds id (.stack effect) := Entity.holds_stack_iff.2 ⟨s, stack⟩
  refine stackFlipped_cases (fun absent => ?_) (fun s' e _ _ _ detached => settleStacks_lost ?_)
    fun s' there stays => ?_
  · rw [stack] at absent
    cases absent
  · have detaches : w.entity.Move rules [] [] e := .detachStack detached
    have precedes := detaches.leads numbered
    exact ⟨precedes.numbered,
      Nat.lt_of_lt_of_le (numbered.attended.tidy.below holds) precedes.handles,
      numbered.attended.tidy.lost_detachStack? detached⟩
  · rw [stack] at there
    cases there
    exact Bool.noConfusion (inactive.symm.trans (stays unowned))

theorem merge_of_absent {e : Entity π} {incoming : Stack π}
    (absent : e.condition (.stack d.effect target) = .absent) :
    rules.merge d e target incoming = .absent := by
  unfold Rulebook.merge
  rw [absent]

theorem merge_of_present {e : Entity π} {incoming : Stack π}
    (there : e.condition (.stack d.effect target) ≠ .absent) :
    mergedDuration d.stacking (rules.readings (e.setCondition (.stack d.effect target) .absent))
      (e.condition (.stack d.effect target)) incoming.duration = rules.merge d e target incoming := by
  unfold Rulebook.merge
  cases tree : e.condition (.stack d.effect target) with
  | absent => exact absurd tree there
  | node head next alternative => rfl

theorem mergeDuration_leaves (target : Handle) (incoming : Stack π) (w : World π) :
    (mergeDuration rules d target incoming).Yields w fun _ w' =>
      w.entity.Moves rules [] w'.entity ∧
      w'.entity.stack? d.effect target = (w.entity.stack? d.effect target).map fun t =>
        { t with duration := rules.merge d w.entity target incoming } := by
  refine mergeDuration_cases (fun absent => ⟨.refl, ?_⟩) fun c there merged => ?_
  · rw [merge_of_absent absent]
    cases stack : w.entity.stack? d.effect target with
    | none => rfl
    | some t =>
        unfold Entity.condition at absent
        dsimp only at absent
        rw [stack, Option.map_some, Option.getD_some] at absent
        rw [Option.map_some, ← absent]
  · rw [← merge_of_present there, merged]
    exact ⟨(Entity.Move.mergeDuration there merged).moves, Entity.stack?_setCondition ..⟩

/-- What becomes of a stack that another one is merged into: it goes if the merged duration ends it,
and otherwise it is there. -/
structure Absorbs (rules : Rulebook π) (d : EffectDefinition π) (e : Entity π) (target : Handle)
    (incoming : Stack π) (e' : Entity π) : Prop where
  was : e.Holds target (.stack d.effect)
  ended : (rules.merge d e target incoming).holds false = true → e'.Lost d.effect target
  kept : (rules.merge d e target incoming).holds false = false → e'.Holds target (.stack d.effect)

theorem mergeStack_absorbs {levels : Nat} {w : World π} (numbered : w.entity.Numbered)
    (stack : w.entity.stack? d.effect target = some t) (unowned : t.isSourced = false)
    (active : t.active = true) (incoming : Stack π) :
    (mergeStack (serve rules levels) rules d target incoming).Yields w fun outcome w' =>
      outcome = .merged target ∧ Absorbs rules d w.entity target incoming w'.entity := by
  have was : w.entity.Holds target (.stack d.effect) := Entity.holds_stack_iff.2 ⟨t, stack⟩
  have handle : t.id = target := by
    obtain ⟨live, -, there⟩ := Option.bind_eq_some_iff.1 stack
    exact LiveEffect.id_of_stack? there
  generalize tree : rules.merge d w.entity target incoming = c
  generalize absorbed : ({ t with
    duration := c
    value := mergedValue d t.value incoming.value
    active := !c.holds false } : Stack π) = s
  have became {w₂ : World π} {t' s' : Stack π}
      (before : w.entity.Moves rules [] w₂.entity ∧
        w₂.entity.stack? d.effect target = some { t with duration := c })
      (stack : w₂.entity.stack? d.effect target = some t')
      (joined : { t' with value := mergedValue d t'.value incoming.value } = s') :
      s'.refresh = (s, c.holds false) ∧
        w.entity.Moves rules [] (w₂.entity.updateStack d.effect target s) ∧
        (w₂.entity.updateStack d.effect target s).stack? d.effect target = some s := by
    obtain ⟨moves, found⟩ := before
    rw [found] at stack
    cases stack
    have refreshed : s'.refresh = (s, c.holds false) := by
      rw [← joined, ← absorbed]
      exact Stack.refresh_merged active unowned c _
    have moved := moves.aside (.updateStack found (mergedValue d t.value incoming.value))
    rw [joined, refreshed] at moved
    exact ⟨refreshed, moved, Entity.stack?_updateStack found (by rw [← absorbed]; exact handle)⟩
  refine mergeStack_cases (fun w₂ => w.entity.Moves rules [] w₂.entity ∧
      w₂.entity.stack? d.effect target = some { t with duration := c }) ?merges
    (fun w₂ before absent => ?absent)
    (fun w₂ t' s' before stack _ joined unmet => ?same)
    fun w₂ t' s' before stack _ joined met => ?flips
  case merges =>
    refine (mergeDuration_leaves target incoming w).mono fun _ w₁ left => ?_
    obtain ⟨moves, left⟩ := left
    rw [stack, Option.map_some, tree] at left
    exact ⟨moves.aside (.releaseStack incoming.detach), left⟩
  case absent =>
    rw [before.2] at absent
    cases absent
  case same =>
    obtain ⟨refreshed, -, there⟩ := became before stack joined
    rw [refreshed] at unmet ⊢
    refine ⟨rfl, was, fun ends => ?_, fun _ => Entity.holds_stack_iff.2 ⟨s, there⟩⟩
    rw [tree] at ends
    exact Bool.noConfusion (unmet.symm.trans ends)
  case flips =>
    obtain ⟨refreshed, moved, there⟩ := became before stack joined
    rw [refreshed] at met ⊢
    have met : c.holds false = true := met
    have inactive : s.active = false := by
      rw [← absorbed, met]
      rfl
    have own : s.isSourced = false := by
      rw [← absorbed]
      exact unowned
    refine (stackFlipped_lost (moved.leads numbered).numbered there inactive own).mono
      fun _ w' lost => ⟨rfl, was, fun _ => lost, fun stays => ?_⟩
    rw [tree] at stays
    exact Bool.noConfusion (met.symm.trans stays)

/-! ### Placing -/

/-- What an outcome names after an attempt to place a stack. -/
structure Names (rules : Rulebook π) (d : EffectDefinition π) (incoming : Stack π) (e : Entity π)
    (outcome : Outcome) (e' : Entity π) : Prop where
  stack : ∀ id, outcome = .stack id → e'.Holds id (.stack d.effect)
  merged : ∀ id, outcome = .merged id → Absorbs rules d e id incoming e'

theorem Names.discarded (rules : Rulebook π) (d : EffectDefinition π) (incoming : Stack π)
    (e e' : Entity π) : Names rules d incoming e .discarded e' :=
  ⟨fun _ same => (by cases same), fun _ same => (by cases same)⟩

theorem pushStack_names (s incoming : Stack π) (e : Entity π) (w : World π) :
    (pushStack d.effect s).Yields w fun outcome w' =>
      Names rules d incoming e outcome w'.entity := by
  refine pushStack_cases (fun live => ⟨fun id same => ?_, nofun⟩) fun _ => .discarded ..
  cases same
  obtain ⟨before, found⟩ := Option.isSome_iff_exists.1 live
  refine ⟨{ before with held := before.held ++ [s] }, ?_, s, by simp, rfl⟩
  rw [Entity.get?_pushStack, if_pos rfl, found, Option.map_some]

theorem pushCapped_names (s incoming : Stack π) (value : UInt32) (e : Entity π) (w : World π) :
    (pushCapped d.effect s value).Yields w fun outcome w' =>
      Names rules d incoming e outcome w'.entity :=
  pushCapped_cases (fun _ => .discarded ..) fun _ =>
    pushStack_names { s with value := value } incoming e w

theorem placeStack_names {levels : Nat} {w : World π} (sound : Sound rules w)
    (numbered : w.entity.Numbered) (s : Stack π) :
    (placeStack (serve rules levels) rules d s).Yields w fun outcome w' =>
      Names rules d s w.entity outcome w'.entity := by
  refine placeStack_cases (fun _ _ => .discarded ..) (fun _ => pushStack_names s s w.entity w)
    (fun _ _ _ => pushCapped_names s s _ w.entity w)
    (fun _ _ _ _ => pushCapped_names s s _ w.entity w) fun target _ first => ?_
  obtain ⟨t, stack, unowned⟩ := sound.tidy.oldest first
  obtain ⟨live, found, there⟩ := Option.bind_eq_some_iff.1 stack
  obtain ⟨_, -, stocked⟩ := sound.stocked d.effect live found
  have active := stocked.counts t (List.mem_of_find?_eq_some there) unowned
  refine (mergeStack_absorbs numbered stack unowned active s).mono fun outcome w' merged => ?_
  obtain ⟨rfl, absorbs⟩ := merged
  refine ⟨nofun, fun id same => ?_⟩
  cases same
  exact absorbs

/-! ### Adding -/

/-- An effect is live already, or holds nothing yet when it becomes live. -/
theorem ensureLive_blank {w : World π} (tidy : w.entity.Tidy) :
    (ensureLive rules d).Yields w fun _ w' =>
      w' = w ∨ ∀ id, ¬w'.entity.Holds id (.stack d.effect) := by
  refine ensureLive_cases (fun _ => .inl rfl) fun _ => .inr fun id holds => ?_
  obtain ⟨live, found, s, member, -⟩ := holds
  rw [Entity.addEffect_effects, Table.get?_insert, if_pos rfl] at found
  cases found
  have blank := congrArg LiveEffect.held tidy.acquireEffect_fst
  change s ∈ w.entity.acquireEffect.1.held at member
  rw [blank] at member
  cases member

section

variable (registered : rules.effects.get? d.effect = some d) (unhooked : d.Unhooked)
  (bare : d.modifiers = [])

include registered unhooked bare

theorem settleStacks_names {levels : Nat} {w : World π} (sound : SoundBut rules (· = d.effect) w)
    {incoming : Stack π} {e : Entity π} {outcome : Outcome}
    (names : Names rules d incoming e outcome w.entity) :
    (settleStacks (serve rules levels) rules d.effect).Yields w fun _ w' =>
      Names rules d incoming e outcome w'.entity := by
  intro _ w' returns
  have holds (id : Handle) (there : w.entity.Holds id (.stack d.effect)) :
      w'.entity.Holds id (.stack d.effect) :=
    settleStacks_holds registered unhooked bare sound there () w' returns
  refine ⟨fun id same => holds id (names.stack id same), fun id same => ?_⟩
  obtain ⟨was, ended, kept⟩ := names.merged id same
  exact ⟨was, fun met => settleStacks_lost (ended met) () w' returns,
    fun unmet => holds id (kept unmet)⟩

/-- An addition that comes back names a stack that is there, or one that took in the added one and
went. -/
theorem addStackOf_names (unheard : d.onAddStack = none) {levels : Nat} {w : World π}
    (sound : Sound rules w) (numbered : w.entity.Numbered) (s : Stack π)
    (source : Option SourceTag) :
    (addStackOf (serve rules levels) rules d s source).Yields w fun outcome w' =>
      Names rules d (rules.handOver d w.entity s source) w.entity.takeHandle.2 outcome w'.entity := by
  have admits := admits_leads rules
  refine addStackOf_cases (fun _ outcome w₂ =>
      (outcome.isApplied = true → SoundBut rules (· = d.effect) w₂) ∧
        Names rules d (rules.handOver d w.entity s source) w.entity.takeHandle.2 outcome w₂.entity)
    (fun created w₁ ensures s' attached handle outcome w₂ places => ?places)
    (fun created outcome w₂ placed applied => ?settles) (fun _ _ placed _ => placed.2)
    fun outcome w₂ _ refused _ w₃ _ => ?empties
  case places =>
    have sound₁ := ((ensureLive_yields registered w created w₁ ensures).1 sound).1
    have leads := (ensureLive_follows admits.follows registered w created w₁ ensures).across
    have asked : Still rules w₁ _ := takeHandle_still
    have takes : w₁.entity.Move rules [] [] w₁.entity.takeHandle.2 := .takeHandle
    have numbered₁ := takes.leads (leads numbered).numbered
    have spare : w₁.entity.takeHandle.2.Spare s'.id := by
      rw [handle]
      exact sound₁.tidy.spare
    have placed := placeStack_placed (serve_orderly levels) registered spare outcome w₂ places
    refine ⟨fun applied => (placed.loosens applied (asked sound₁).1).1, ?_⟩
    have named := placeStack_names (asked sound₁).1 numbered₁.numbered s' outcome w₂ places
    rw [← attached] at named
    -- An effect that has just become live holds no stack that could take in another one.
    rcases ensureLive_blank sound.tidy created w₁ ensures with rfl | nothing
    · exact named
    · exact ⟨named.stack, fun id same => absurd (named.merged id same).was (nothing id)⟩
  case settles =>
    obtain ⟨loosened, names⟩ := placed
    refine (settleStacks_names registered unhooked bare (loosened applied) names).mono
      fun _ w₃ settled => ?_
    rw [unheard, runHook, yields_pure]
    exact settled
  case empties =>
    cases outcome with
    | discarded => exact .discarded ..
    | _ => cases refused

end

end Engine

/-- An effect holds a stack with a handle, which is active if nobody owns it. -/
def Entity.HasStack (e : Entity π) (effect : EffectName) (id : Handle) : Prop :=
  ∃ s, e.stack? effect id = some s ∧ (s.isSourced = false → s.active = true)

/-- When an addition to an effect without modifiers and hooks comes back and tells of a new stack, the
effect holds that stack. When it tells of a stack that took in the added one, the effect holds that
stack unless the merged duration ends it, and then it does not. -/
theorem applied_addition_found {rules : Rulebook π} {d : EffectDefinition π}
    {snapshots : Snapshot → Prop} {calls : Entity π → Call π → Prop} {levels : Nat} {s : Stack π}
    {source : Option SourceTag} {outcome : Outcome} {w w' : World π}
    (reached : Reached rules snapshots calls w)
    (registered : rules.effects.get? d.effect = some d) (bare : d.modifiers = [])
    (unhooked : d.Unhooked) (unheard : d.onAddStack = none)
    (returns : Engine.perform rules levels (.addStack d.effect s source) w = .ok (.ok outcome) w') :
    (∀ id, outcome = .stack id → w'.entity.HasStack d.effect id) ∧
    ∀ id, outcome = .merged id →
      if (rules.merge d w.entity.takeHandle.2 id (rules.handOver d w.entity s source)).holds false then
        w'.entity.stack? d.effect id = none
      else w'.entity.HasStack d.effect id := by
  obtain ⟨sound, -⟩ := reached.settled
  have sound' : Sound rules w' :=
    (Engine.performWith_orderly (Engine.serve_orderly levels) _ w _ w' returns sound).1
  have has {id : Handle} (holds : w'.entity.Holds id (.stack d.effect)) :
      w'.entity.HasStack d.effect id := by
    obtain ⟨t, stack⟩ := Entity.holds_stack_iff.1 holds
    obtain ⟨live, found, there⟩ := Option.bind_eq_some_iff.1 stack
    obtain ⟨_, -, stocked⟩ := sound'.stocked d.effect live found
    exact ⟨t, stack, stocked.counts t (List.mem_of_find?_eq_some there)⟩
  have names : Engine.Names rules d (rules.handOver d w.entity s source) w.entity.takeHandle.2 outcome
      w'.entity := by
    have adds : (Engine.addStack (Engine.serve rules levels) rules d.effect s source).Yields w
        fun reply w' => ∀ outcome, reply = .ok outcome → Engine.Names rules d
          (rules.handOver d w.entity s source) w.entity.takeHandle.2 outcome w'.entity := by
      rw [Engine.addStack, registered]
      dsimp only
      rw [Act.yields_map]
      refine (Engine.addStackOf_names registered unhooked bare unheard sound reached.numbered s
        source).mono fun other w' named outcome same => ?_
      cases same
      exact named
    exact adds _ w' returns outcome rfl
  refine ⟨fun id same => has (names.stack id same), fun id same => ?_⟩
  obtain ⟨-, ended, kept⟩ := names.merged id same
  split
  · rename_i met
    refine Option.eq_none_iff_forall_ne_some.2 fun t stack => ?_
    exact (ended met).gone (Entity.holds_stack_iff.2 ⟨t, stack⟩)
  · rename_i unmet
    exact has (kept (Bool.eq_false_iff.2 unmet))

def shroud : EffectDefinition Empty := { EffectDefinition.ofName "shroud" with stacking := .restart }

def shroudRules : Rulebook Empty := ((Rulebook.builtin.registerEffect shroud).toOption).getD .builtin

theorem shroudRules_hookless (hook : Hook) (script : Script Empty Unit) :
    ¬shroudRules.Starts hook script := by
  have values : shroudRules.effects.values = [shroud] := rfl
  exact Rulebook.hookless_of_values values (List.forall_mem_singleton.2 ⟨rfl, rfl, rfl, rfl⟩) rfl hook
    script

/-- After four seconds the stack takes in another one and is there for ten seconds again. -/
theorem shroud_stack_found : ∃ w w' : World Empty,
    Reached shroudRules (fun _ => True) (fun _ c => c.Fresh) w ∧
    Engine.perform shroudRules 6 (.addStack "shroud" (.ofValue 1) none) w = .ok (.ok (.merged 2)) w' ∧
    w'.entity.HasStack "shroud" 2 := by
  have made : ((Engine.performAll shroudRules 6
      [.addStack "shroud" { (Stack.ofValue 1 : Stack Empty) with duration := .timed 10 } none, .passTime 4]
      (.ofEntity .new)).any fun w =>
        !(shroudRules.merge shroud w.entity.takeHandle.2 2
          (shroudRules.handOver shroud w.entity (.ofValue 1) none)).holds false &&
        match Engine.perform shroudRules 6 (.addStack "shroud" (.ofValue 1) none) w with
        | .ok reply _ => reply = .ok (.merged 2)
        | .error _ _ => false) = true := by
    decide +kernel
  obtain ⟨w, run, checked⟩ := (Option.any_eq_true ..).1 made
  rw [Bool.and_eq_true, Bool.not_eq_true'] at checked
  obtain ⟨unmet, adds⟩ := checked
  have reached : Reached shroudRules (fun _ => True) (fun _ c => c.Fresh) w := by
    refine Engine.reached_of_performAll .new (fun c listed _ => ?_) run
    rcases List.mem_cons.1 listed with rfl | later
    · exact ⟨rfl, by decide⟩
    · rw [List.mem_singleton.1 later]
      trivial
  split at adds
  · rename_i reply w' returns
    rw [decide_eq_true_eq] at adds
    subst adds
    have found := (applied_addition_found (d := shroud) reached rfl rfl ⟨rfl, rfl⟩ rfl returns).2 2 rfl
    rw [unmet, if_neg Bool.false_ne_true] at found
    exact ⟨w, w', reached, returns, found⟩
  · cases adds

def fading : Stack Empty :=
  { (Stack.ofValue 1 : Stack Empty) with
    duration := .node { Node.ofTrigger (.countdown ⟨10, 0⟩) with negated := true } .absent .absent }

/-- The countdown of the stack starts again when the stack takes in another one, so the addition tells
of a stack that is gone when it comes back. -/
theorem shroud_merged_away : ∃ w w' : World Empty,
    Reached shroudRules (fun _ => True) (fun _ c => c.Fresh) w ∧
    shroudRules.effects.get? "shroud" = some shroud ∧ shroud.modifiers = [] ∧
    (∀ hook script, ¬shroudRules.Starts hook script) ∧
    Engine.perform shroudRules 6 (.addStack "shroud" (.ofValue 1) none) w = .ok (.ok (.merged 2)) w' ∧
    ¬w'.entity.HasStack "shroud" 2 := by
  have made : ((Engine.performAll shroudRules 6 [.addStack "shroud" fading none] (.ofEntity .new)).any
      fun w =>
        match Engine.perform shroudRules 6 (.addStack "shroud" (.ofValue 1) none) w with
        | .ok reply w' => reply = .ok (.merged 2) && (w'.entity.stack? "shroud" 2).isNone
        | .error _ _ => false) = true := by
    decide +kernel
  obtain ⟨w, run, adds⟩ := (Option.any_eq_true ..).1 made
  have reached : Reached shroudRules (fun _ => True) (fun _ c => c.Fresh) w := by
    refine Engine.reached_of_performAll .new (fun c listed _ => ?_) run
    rw [List.mem_singleton.1 listed]
    exact ⟨rfl, by decide⟩
  split at adds
  · rename_i reply w' returns
    rw [Bool.and_eq_true, decide_eq_true_eq, Option.isNone_iff_eq_none] at adds
    obtain ⟨rfl, gone⟩ := adds
    refine ⟨w, w', reached, rfl, rfl, shroudRules_hookless, returns, fun found => ?_⟩
    obtain ⟨s, stack, -⟩ := found
    rw [gone] at stack
    cases stack
  · cases adds

end StatusEffects
