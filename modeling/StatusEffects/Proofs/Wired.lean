import StatusEffects.Proofs.Bearing

/-!
Entities whose condition trees are wired to the stats that they watch.

Every tree reacts to events, and if its triggers keep watching what they watch, it hears of these
stats. Its kept results may lag behind the stats where there is doubt, and the activity of an entry may
lag behind its tree while its owner is pending. A change of the entity raises doubt about the stats that
it touches, and the notice of a stat lays the doubt about it to rest.
-/

set_option autoImplicit false

namespace StatusEffects

variable {π : Type} {rules : Rulebook π}

theorem Rulebook.readings_eq (plain : rules.statRules = ∅) {e e' : Entity π}
    (same : ∀ stat, e.SameAt e' stat) : rules.readings e' = rules.readings e := by
  have agree (stat : StatName) := rules.readings_agree plain (same stat)
  have current : (rules.readings e').current = (rules.readings e).current :=
    funext fun stat => (agree stat).1.symm
  have computed : (rules.readings e').computed = (rules.readings e).computed :=
    funext fun stat => (agree stat).2.symm
  change Readings.mk (rules.readings e').current (rules.readings e').computed = _
  rw [current, computed]

namespace Entity

variable {e e' : Entity π}

/-! ### Values that stay -/

theorem SameAt.of_same (values : e'.values = e.values) (modifiers : e'.modifiers = e.modifiers)
    (stat : StatName) : e.SameAt e' stat := by
  unfold SameAt
  rw [values, modifiers]
  exact ⟨rfl, rfl⟩

theorem sameAt_setCondition (e : Entity π) (owner : Owner) (c : Condition π) (stat : StatName) :
    e.SameAt (e.setCondition owner c) stat := by
  cases owner with
  | modifier other id =>
      refine ⟨rfl, ?_⟩
      change ((e.modifiers.modify other id _).get stat).map Modifier.gist = _
      rw [ModifierLists.get_modify]
      split
      · apply map_modifyFirst
        intro m _
        rfl
      · rfl
  | stack effect id => exact .refl e stat
  | custom effect serial index => exact .refl e stat

theorem sameAt_updateModifier {stat other : StatName} {id : Handle} {m : Modifier π}
    (different : other ≠ stat) : e.SameAt (e.updateModifier stat id m) other := by
  refine ⟨rfl, ?_⟩
  change ((e.modifiers.modify stat id _).get other).map Modifier.gist = _
  rw [ModifierLists.get_modify, if_neg different]

theorem sameAt_dropModifier? {stat other : StatName} {id : Handle}
    (dropped : e.dropModifier? stat id = some e') (different : other ≠ stat) :
    e.SameAt e' other := by
  obtain ⟨⟨m, modifiers⟩, removed, rfl⟩ := Option.map_eq_some_iff.1 dropped
  refine ⟨rfl, ?_⟩
  change (modifiers.get other).map Modifier.gist = _
  rw [ModifierLists.get_remove? removed, if_neg different]

theorem Tidy.sameAt_dropModifiersOf (tidy : e.Tidy) {source : SourceTag} {stat : StatName}
    (others : ∀ m ∈ e.modifiers.ofSource (some source), m.stat ≠ stat) :
    e.SameAt (e.dropModifiersOf source) stat := by
  unfold Entity.SameAt
  rw [dropModifiersOf_values, get_dropModifiersOf, List.filter_eq_self.2]
  · exact ⟨rfl, rfl⟩
  · intro m member
    rw [decide_eq_true_eq]
    intro sourced
    exact others m (ModifierLists.mem_ofSource.2 ⟨⟨stat, member⟩, sourced⟩) (tidy.filed stat m member)

theorem sameAt_detachStack? {effect : EffectName} {id : Handle}
    (detached : e.detachStack? effect id = some e') (stat : StatName) : e.SameAt e' stat := by
  obtain ⟨live, s, -, -, rfl⟩ := detachStack?_eq_some detached
  exact .refl e stat

theorem sameAt_detachStacks (e : Entity π) (effect : EffectName) (ids : List Handle)
    (stat : StatName) : e.SameAt (e.detachStacks effect ids).2 stat :=
  detachStacks_induct (motive := fun e' => e.SameAt e' stat) effect
    (fun _ _ _ detached before => before.trans (sameAt_detachStack? detached stat)) ids (.refl e stat)

theorem sameAt_dropEffect (e : Entity π) (effect : EffectName) (live : LiveEffect π)
    (stat : StatName) : e.SameAt (e.dropEffect effect live) stat := by
  obtain ⟨values, modifiers⟩ := dropEffect_stats e effect live
  exact .of_same values modifiers stat

end Entity

/-! ### Doubt -/

/-- The owners and stats about which it is not certain that kept results are right. -/
abbrev Doubt := Owner → StatName → Prop

namespace Doubt

def none : Doubt := fun _ _ => False

def about (stats : List StatName) (doubt : Doubt) : Doubt :=
  fun owner stat => stat ∈ stats ∨ doubt owner stat

def except (stat : StatName) (doubt : Doubt) : Doubt :=
  fun owner other => other ≠ stat ∧ doubt owner other

end Doubt

variable [CustomTrigger π]

namespace Entity

/-- A tree reacts to events, and the activity that goes with it follows from it unless its owner is
pending. If the triggers of the game keep watching what they watch, then the tree hears of what it
watches and is right where there is no doubt. -/
structure Seated (rules : Rulebook π) (e : Entity π) (pending : Option Owner) (doubt : Doubt)
    (owner : Owner) (c : Condition π) (gate : Option Gate) : Prop where
  armed : c.Armed
  placid : c.Placid
  watched : FixedWatch π → ∀ stat, c.Watches stat → owner ∈ e.watchers.get stat
  certain : FixedWatch π → ∀ stat, c.StaleFor (rules.readings e) stat → doubt owner stat
  active : ∀ g, gate = some g → some owner ≠ pending → g.active = !c.holds g.sourced
  lasts : ∀ g, gate = some g → g.sourced = false → g.active = true

structure Wired (rules : Rulebook π) (pending : Option Owner) (doubt : Doubt) (e : Entity π) :
    Prop where
  tidy : e.Tidy
  seated : ∀ owner c gate, e.Bears owner c gate → Seated rules e pending doubt owner c gate

variable {e e' : Entity π} {pending pending' : Option Owner} {doubt doubt' : Doubt}

/-- There is doubt only about trees that are stale. -/
theorem Wired.tighten (wired : e.Wired rules pending doubt)
    (tight : FixedWatch π → ∀ owner c gate, e.Bears owner c gate → (∀ stat, c.Watches stat →
      owner ∈ e.watchers.get stat) → ∀ stat, c.StaleFor (rules.readings e) stat →
        doubt owner stat → doubt' owner stat) : e.Wired rules pending doubt' where
  tidy := wired.tidy
  seated owner c gate bears :=
    { wired.seated owner c gate bears with
      certain := fun fixed stat stale => by
        have seated := wired.seated owner c gate bears
        exact tight fixed owner c gate bears (seated.watched fixed) stat stale
          (seated.certain fixed stat stale) }

theorem Wired.mono (wired : e.Wired rules pending doubt)
    (weaker : ∀ owner stat, doubt owner stat → doubt' owner stat) :
    e.Wired rules pending doubt' :=
  wired.tighten fun _ _ _ _ _ _ _ _ => weaker _ _

theorem Wired.pend (wired : e.Wired rules none doubt) (pending : Option Owner) :
    e.Wired rules pending doubt where
  tidy := wired.tidy
  seated owner c gate bears :=
    { wired.seated owner c gate bears with
      active := fun g there _ => (wired.seated owner c gate bears).active g there nofun }

/-- An owner whose activity follows from its tree need not be waited for. -/
theorem Wired.settled {owner : Owner} (wired : e.Wired rules (some owner) doubt)
    (fits : ∀ c g, e.Bears owner c (some g) → g.active = !c.holds g.sourced) :
    e.Wired rules none doubt where
  tidy := wired.tidy
  seated other c gate bears :=
    { wired.seated other c gate bears with
      active := fun g there _ => by
        by_cases here : other = owner
        · subst here there
          exact fits c g bears
        · exact (wired.seated other c gate bears).active g there fun same =>
            here (Option.some.inj same) }

/-- A change of an entity keeps what it leaves alone wired. -/
theorem Wired.change (plain : rules.statRules = ∅) (watched : WatchedOnly π)
    (wired : e.Wired rules pending doubt) (tidy : e'.Tidy)
    (weaker : ∀ owner stat, doubt owner stat → doubt' owner stat)
    (same : ∀ stat, (∀ owner, doubt' owner stat) ∨ e.SameAt e' stat)
    (each : ∀ owner c gate, e'.Bears owner c gate →
      (e.Kept e' owner c gate ∧ (some owner = pending → some owner = pending')) ∨
        Seated rules e' pending' doubt' owner c gate) : e'.Wired rules pending' doubt' where
  tidy := tidy
  seated owner c gate bears := by
    rcases each owner c gate bears with ⟨⟨before, watches⟩, waits⟩ | new
    · have seated := wired.seated owner c gate before
      exact
        { armed := seated.armed
          placid := seated.placid
          watched := fun fixed stat watching => watches stat (seated.watched fixed stat watching)
          certain := fun fixed stat stale => by
            rcases same stat with all | same
            · exact all owner
            · exact weaker owner stat (seated.certain fixed stat
                (stale.congr watched (rules.readings_agree plain same)))
          active := fun g there apart => seated.active g there fun here => apart (waits here)
          lasts := seated.lasts }
    · exact new

/-- Owners may go. -/
theorem Wired.sheds (plain : rules.statRules = ∅) (watched : WatchedOnly π)
    (wired : e.Wired rules pending doubt) (tidy : e'.Tidy)
    (weaker : ∀ owner stat, doubt owner stat → doubt' owner stat)
    (same : ∀ stat, (∀ owner, doubt' owner stat) ∨ e.SameAt e' stat) (sheds : e.Sheds e') :
    e'.Wired rules pending doubt' :=
  wired.change plain watched tidy weaker same fun owner c gate bears =>
    .inl ⟨sheds owner c gate bears, fun waits => waits⟩

/-- One owner may get a tree and an activity that fit, and is pending no longer. -/
theorem Wired.revises (plain : rules.statRules = ∅) (watched : WatchedOnly π)
    (wired : e.Wired rules pending doubt) (tidy : e'.Tidy)
    (weaker : ∀ owner stat, doubt owner stat → doubt' owner stat)
    (same : ∀ stat, (∀ owner, doubt' owner stat) ∨ e.SameAt e' stat) {owner : Owner}
    {c : Condition π} {gate : Option Gate} (revises : e.Revises e' owner c gate)
    (waits : ∀ other, some other = pending → other ≠ owner → some other = pending')
    (new : Seated rules e' pending' doubt' owner c gate) : e'.Wired rules pending' doubt' := by
  refine wired.change plain watched tidy weaker same fun other c' gate' bears => ?_
  by_cases here : other = owner
  · subst here
    obtain ⟨rfl, rfl⟩ := revises.own c' gate' bears
    exact .inr new
  · exact .inl ⟨revises.others other c' gate' bears here, fun waiting => waits other waiting here⟩

/-- A tree of which some nodes looked again is wired if the tree before was. -/
theorem seated_of_renews (watched : WatchedOnly π) {r : Readings} {owner : Owner}
    {c c' : Condition π} {gate : Option Gate} (renews : c.Renews r c') (armed : c.Armed)
    (placid : c.Placid) (certain : FixedWatch π → ∀ stat, c'.StaleFor r stat → doubt owner stat)
    (agree : ∀ stat, doubt owner stat ∨ r.Agree (rules.readings e) stat)
    (watches : FixedWatch π → ∀ stat, c'.Watches stat → owner ∈ e.watchers.get stat)
    (active : ∀ g, gate = some g → some owner ≠ pending → g.active = !c'.holds g.sourced)
    (lasts : ∀ g, gate = some g → g.sourced = false → g.active = true) :
    Seated rules e pending doubt owner c' gate where
  armed := renews.armed armed
  placid := renews.placid watched placid
  watched := watches
  certain fixed stat stale := by
    rcases agree stat with doubtful | agree
    · exact doubtful
    · exact certain fixed stat (stale.congr watched agree)
  active := active
  lasts := lasts

end Entity

/-! ### Trees that start -/

/-- A modifier that was never attached, with a duration that never started. -/
def Modifier.Fresh (m : Modifier π) : Prop := m.attached = false ∧ m.duration.Unarmed

instance (m : Modifier π) : Decidable m.Fresh :=
  inferInstanceAs (Decidable (m.attached = false ∧ m.duration.Unarmed))

def Stack.Fresh (s : Stack π) : Prop := s.attached = false ∧ s.duration.Unarmed

instance (s : Stack π) : Decidable s.Fresh :=
  inferInstanceAs (Decidable (s.attached = false ∧ s.duration.Unarmed))

/-- A tree has just looked at every trigger, and an activity follows from it. -/
structure Started (r : Readings) (c : Condition π) (active sourced : Bool) : Prop where
  renews : (Condition.absent : Condition π).Renews r c
  active : active = !c.holds sourced

theorem Modifier.Fresh.attach {m : Modifier π} (fresh : m.Fresh) (r : Readings)
    (source : Option SourceTag) :
    Started r (m.attach r source).duration (m.attach r source).active
      (m.attach r source).isSourced := by
  unfold Modifier.attach
  rw [fresh.1, if_neg (by decide)]
  exact ⟨Condition.arm_renews fresh.2 r, rfl⟩

theorem Stack.Fresh.attach {s : Stack π} (fresh : s.Fresh) (r : Readings)
    (source : Option SourceTag) :
    Started r (s.attach r source).duration (s.attach r source).active
      (s.attach r source).isSourced := by
  unfold Stack.attach
  rw [fresh.1, if_neg (by decide)]
  exact ⟨Condition.arm_renews fresh.2 r, rfl⟩

namespace Entity

variable {e e' : Entity π} {pending : Option Owner} {doubt doubt' : Doubt} {r : Readings}

theorem seated_of_started (watched : WatchedOnly π) {owner : Owner} {c : Condition π}
    (renews : (Condition.absent : Condition π).Renews r c)
    (agree : ∀ stat, doubt owner stat ∨ r.Agree (rules.readings e) stat)
    (watches : ∀ stat, c.Watches stat → owner ∈ e.watchers.get stat) {gate : Option Gate}
    (active : ∀ g, gate = some g → g.active = !c.holds g.sourced)
    (lasts : ∀ g, gate = some g → g.sourced = false → g.active = true) :
    Seated rules e pending doubt owner c gate := by
  refine seated_of_renews watched renews (fun _ member => (List.not_mem_nil member).elim)
    (fun _ member => (List.not_mem_nil member).elim) (fun _ stat stale => ?_) agree
    (fun _ => watches) (fun g there _ => active g there) lasts
  obtain ⟨_, member, _⟩ := renews.stale stale
  exact (List.not_mem_nil member).elim

variable (plain : rules.statRules = ∅) (watched : WatchedOnly π)

include plain watched

/-- What neither stats nor trees depend on may change. -/
theorem Wired.of_same (wired : e.Wired rules pending doubt) (tidy : e'.Tidy)
    (values : e'.values = e.values) (modifiers : e'.modifiers = e.modifiers)
    (effects : e'.effects = e.effects) (watchers : e'.watchers = e.watchers) :
    e'.Wired rules pending doubt :=
  wired.sheds plain watched tidy (fun _ _ => id) (fun stat => .inr (.of_same values modifiers stat))
    (.of_same modifiers effects watchers)

theorem Wired.addModifier (wired : e.Wired rules none doubt) {operators : OperatorTable}
    {m : Modifier π} (tidy : (e.addModifier operators m).Tidy)
    (started : Started (rules.readings e) m.duration m.active m.isSourced)
    (lasts : m.isSourced = false → m.active = true) :
    (e.addModifier operators m).Wired rules none (doubt.about [m.stat]) := by
  have same (stat : StatName) (different : stat ≠ m.stat) :
      e.SameAt (e.addModifier operators m) stat := by
    refine ⟨rfl, ?_⟩
    change ((e.modifiers.insert operators m).get stat).map Modifier.gist = _
    rw [ModifierLists.get_insert, if_neg different]
  have either (owner : Owner) (stat : StatName) :
      doubt.about [m.stat] owner stat ∨ e.SameAt (e.addModifier operators m) stat := by
    by_cases here : stat = m.stat
    · exact .inl (.inl (List.mem_singleton.2 here))
    · exact .inr (same stat here)
  refine wired.change plain watched tidy (fun _ _ => .inr) (fun stat => ?_)
    fun owner c gate bears => ?_
  · by_cases here : stat = m.stat
    · exact .inl fun _ => .inl (List.mem_singleton.2 here)
    · exact .inr (same stat here)
  · rcases bears_addModifier operators m bears with kept | ⟨rfl, rfl, rfl⟩
    · exact .inl ⟨kept, id⟩
    · right
      refine seated_of_started watched started.renews (fun stat => ?_)
        (fun stat => watchers_addModifier operators m) (fun g there => ?_) fun g there => ?_
      · exact (either _ stat).imp_right (rules.readings_agree plain)
      · cases there
        exact started.active
      · cases there
        exact lasts

theorem Wired.pushStack (wired : e.Wired rules none doubt) {effect : EffectName} {s : Stack π}
    (tidy : (e.pushStack effect s).Tidy)
    (started : Started (rules.readings e) s.duration s.active s.isSourced)
    (lasts : s.isSourced = false → s.active = true) :
    (e.pushStack effect s).Wired rules none doubt := by
  have same (stat : StatName) : e.SameAt (e.pushStack effect s) stat := .refl e stat
  refine wired.change plain watched tidy (fun _ _ => id) (fun stat => .inr (same stat))
    fun owner c gate bears => ?_
  rcases bears_pushStack effect s bears with kept | ⟨rfl, rfl, rfl⟩
  · exact .inl ⟨kept, id⟩
  · right
    refine seated_of_started watched started.renews
      (fun stat => .inr (rules.readings_agree plain (same stat)))
      (fun stat => watchers_pushStack effect s) (fun g there => ?_) fun g there => ?_
    · cases there
      exact started.active
    · cases there
      exact lasts

theorem Wired.addEffect (wired : e.Wired rules none doubt) {live : LiveEffect π}
    {armed : List (Condition π)} (tidy : (e.addEffect live armed).Tidy) (held : live.held = [])
    (empty : live.conditions = [])
    (started : ∀ c ∈ armed, (Condition.absent : Condition π).Renews (rules.readings e) c) :
    (e.addEffect live armed).Wired rules none doubt := by
  obtain ⟨values, modifiers⟩ := addEffect_stats e live armed
  have same (stat : StatName) : e.SameAt (e.addEffect live armed) stat :=
    .of_same values modifiers stat
  refine wired.change plain watched tidy (fun _ _ => id) (fun stat => .inr (same stat))
    fun owner c gate bears => ?_
  rcases bears_addEffect held empty armed bears with kept | ⟨index, rfl, placed, rfl⟩
  · exact .inl ⟨kept, id⟩
  · right
    refine seated_of_started watched (started c (List.mem_of_getElem? placed))
      (fun stat => .inr (rules.readings_agree plain (same stat))) (fun stat watches => ?_) nofun nofun
    exact (watchers_addEffect live armed).2 (.inr ⟨index, c, placed, rfl, watches⟩)

/-! ### Trees that look again -/

/-- An owner whose tree looked again, and that hears of what the tree watches now, is pending. -/
theorem Wired.setCondition (wired : e.Wired rules none doubt) {owner : Owner} {c c' : Condition π}
    {gate : Option Gate} (bears : e.Bears owner c gate)
    (renews : c.Renews (rules.readings e) c') (interests : Interests)
    (watches : FixedWatch π → ∀ stat, c'.Watches stat → owner ∈ e.watchers.get stat ∨
      interests.stats.contains stat = true) :
    ((e.setCondition owner c').subscribe owner interests).Wired rules (some owner) doubt := by
  have watchers : (e.setCondition owner c').watchers = e.watchers := by
    cases owner with
    | modifier stat id => rfl
    | stack effect id => rfl
    | custom effect serial index => rfl
  have member {other : Owner} {stat : StatName} :
      other ∈ ((e.setCondition owner c').subscribe owner interests).watchers.get stat ↔
        other ∈ e.watchers.get stat ∨ (other = owner ∧ interests.stats.contains stat = true) := by
    rw [watchers_subscribe, watchers]
  have same (stat : StatName) :
      e.SameAt ((e.setCondition owner c').subscribe owner interests) stat :=
    sameAt_setCondition e owner c' stat
  have revised := wired.tidy.revises_setCondition bears c'
  have seated := wired.seated owner c gate bears
  have tidy := (wired.tidy.setCondition owner c').subscribe owner interests
  have revises : e.Revises ((e.setCondition owner c').subscribe owner interests) owner c' gate :=
    { others := fun other d gate' bears' different => by
        have before : (e.setCondition owner c').Bears other d gate' := bears'.of_same rfl rfl
        exact ⟨(revised.others other d gate' before different).1,
          fun stat there => member.2 (.inl there)⟩
      own := fun d gate' bears' => revised.own d gate' (bears'.of_same rfl rfl) }
  refine wired.revises plain watched tidy (fun _ _ => id) (fun stat => .inr (same stat)) revises
    (fun _ waiting => by cases waiting) ?_
  · refine seated_of_renews watched renews seated.armed seated.placid (fun fixed stat stale => ?_)
      (fun stat => .inr (rules.readings_agree plain (same stat))) (fun fixed stat watching => ?_)
      (fun _ _ apart => absurd rfl apart) seated.lasts
    · exact seated.certain fixed stat (renews.stale stale)
    · exact member.2 ((watches fixed stat watching).imp_right fun interested => ⟨rfl, interested⟩)

/-! ### Activities that follow -/

theorem Wired.updateModifier {stat : StatName} {id : Handle} {m : Modifier π}
    (wired : e.Wired rules (some (.modifier stat id)) doubt)
    (found : e.modifiers.find? stat id = some m)
    (lasts : m.isSourced = false → m.shouldBeActive = true)
    (weaker : ∀ owner other, doubt owner other → doubt' owner other)
    (same : ∀ other, (∀ owner, doubt' owner other) ∨
      e.SameAt (e.updateModifier stat id m.refresh.1) other) :
    (e.updateModifier stat id m.refresh.1).Wired rules none doubt' := by
  obtain ⟨member, handle⟩ := (find?_eq_some_iff_of_nodup (wired.tidy.distinct stat) id m).1 found
  have seated := wired.seated _ _ _ (.modifier member)
  rw [handle] at seated
  refine wired.revises plain watched
    (wired.tidy.updateModifier (wired.tidy.filed stat m member) handle) weaker same
    (wired.tidy.revises_updateModifier found handle) (fun other waiting different => ?_) ?_
  · cases waiting
    exact absurd rfl different
  · refine seated_of_renews watched (.refl (rules.readings e) m.duration) seated.armed
      seated.placid (fun fixed other stale => weaker _ _ (seated.certain fixed other stale))
      (fun other => ?_) seated.watched (fun g there _ => ?_) fun g there => ?_
    · exact (same other).imp (fun all => all _) (rules.readings_agree plain)
    · cases there
      rfl
    · cases there
      exact lasts

theorem Wired.updateStack {effect : EffectName} {id : Handle} {s s' : Stack π}
    (wired : e.Wired rules (some (.stack effect id)) doubt) (found : e.stack? effect id = some s)
    (handle : s'.id = id) (duration : s'.duration = s.duration)
    (lasts : s'.isSourced = false → s'.shouldBeActive = true) :
    (e.updateStack effect id s'.refresh.1).Wired rules none doubt := by
  obtain ⟨live, lives, stack⟩ := Option.bind_eq_some_iff.1 found
  have seated := wired.seated _ _ _ (.stack lives (List.mem_of_find?_eq_some stack))
  rw [LiveEffect.id_of_stack? stack, ← duration] at seated
  have same (stat : StatName) : e.SameAt (e.updateStack effect id s'.refresh.1) stat := .refl e stat
  refine wired.revises plain watched (wired.tidy.updateStack effect handle) (fun _ _ doubtful => doubtful)
    (fun stat => .inr (same stat)) (wired.tidy.revises_updateStack found handle)
    (fun other waiting different => ?_) ?_
  · cases waiting
    exact absurd rfl different
  · refine seated_of_renews watched (.refl (rules.readings e) s'.duration) seated.armed
      seated.placid seated.certain (fun stat => .inr (rules.readings_agree plain (same stat)))
      seated.watched (fun g there _ => ?_) fun g there => ?_
    · cases there
      rfl
    · cases there
      exact lasts

/-- A modifier that was changed and goes leaves no one pending. -/
theorem Wired.dropModifier {stat : StatName} {id : Handle} {m m' : Modifier π}
    (wired : e.Wired rules (some (.modifier stat id)) doubt)
    (found : e.modifiers.find? stat id = some m) (filed : m'.stat = stat) (handle : m'.id = id)
    (dropped : (e.updateModifier stat id m').dropModifier? stat id = some e') :
    e'.Wired rules none (doubt.about [stat]) := by
  have tidy := wired.tidy.updateModifier filed handle
  have gone := tidy.gone_dropModifier? dropped
  have sheds := (wired.tidy.revises_updateModifier found handle).sheds
    (tidy.sheds_dropModifier? dropped) gone
  refine wired.change plain watched (tidy.dropModifier? dropped) (fun _ _ => .inr)
    (fun other => ?_) fun owner c gate bears => .inl ⟨sheds owner c gate bears, fun waiting => ?_⟩
  · by_cases here : other = stat
    · exact .inl fun _ => .inl (List.mem_singleton.2 here)
    · exact .inr ((sameAt_updateModifier here).trans (sameAt_dropModifier? dropped here))
  · cases waiting
    exact absurd bears (gone c gate)

/-- A stack that was changed and goes leaves no one pending. -/
theorem Wired.detachStack {effect : EffectName} {id : Handle} {s s' : Stack π}
    (wired : e.Wired rules (some (.stack effect id)) doubt) (found : e.stack? effect id = some s)
    (handle : s'.id = id)
    (detached : (e.updateStack effect id s').detachStack? effect id = some e') :
    e'.Wired rules none doubt := by
  have tidy := wired.tidy.updateStack effect handle
  have gone := tidy.gone_detachStack? detached
  have sheds := (wired.tidy.revises_updateStack found handle).sheds
    (tidy.sheds_detachStack? detached) gone
  refine wired.change plain watched (tidy.detachStack? detached) (fun _ _ doubtful => doubtful)
    (fun stat => .inr (sameAt_detachStack? detached stat))
    fun owner c gate bears => .inl ⟨sheds owner c gate bears, fun waiting => ?_⟩
  cases waiting
  exact absurd bears (gone c gate)

end Entity

end StatusEffects
