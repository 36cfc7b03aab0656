import StatusEffects.Proofs.Forms
import StatusEffects.Proofs.Restocking
import StatusEffects.Proofs.Stacking

/-!
Entities that come back from their snapshots.

A snapshot is loaded part by part: the plain modifiers stat by stat, then the effects in the order of
their names, each stack by stack. A part is looked at while only the parts before it are there. If no
condition depends on parts that are still to come, and each stack finds room beside those before it,
everything comes back; only the modifiers of effects are new ones, behind the plain ones of their
rank.
-/

set_option autoImplicit false

namespace StatusEffects

variable {π : Type}

namespace Entity

def savedDurations (e : Entity π) : List (Condition π) :=
  (e.modifiers.toList.filter fun m => plain m.source).map Modifier.duration ++
    e.effects.values.flatMap fun live => live.held.map Stack.duration

/-- The stats that have modifiers, and those to which live effects may apply some. -/
def touched (rules : Rulebook π) (e : Entity π) : List StatName :=
  e.modifiers.toList.map Modifier.stat ++ e.effects.values.flatMap fun live =>
    ((rules.effects.get? live.effect).map fun d => d.modifiers.map Modifier.stat).getD []

def Storable (e : Entity π) : Prop := ∀ c ∈ e.savedDurations, c.Storable

/-- No part of an entity depends on a part behind it: no condition compares with a share of what is
calculated for a stat that has modifiers, and each stack has room beside those before it. -/
structure Restorable (rules : Rulebook π) (e : Entity π) : Prop where
  steady : ∀ c ∈ e.savedDurations, c.Steady (· ∈ e.touched rules)
  templates : ∀ live ∈ e.effects.values, ∀ d ∈ rules.effects.get? live.effect,
    ∀ m ∈ d.modifiers, m.duration.Steady (· ∈ e.touched rules)
  roomy : ∀ live ∈ e.effects.values, ∀ d ∈ rules.effects.get? live.effect, live.Roomy d

instance (e : Entity π) : Decidable e.Storable :=
  inferInstanceAs (Decidable (∀ c ∈ e.savedDurations, c.Storable))

instance (rules : Rulebook π) (e : Entity π) : Decidable (e.Restorable rules) :=
  decidable_of_iff ((∀ c ∈ e.savedDurations, c.Steady (· ∈ e.touched rules)) ∧
      (∀ live ∈ e.effects.values, ∀ d ∈ rules.effects.get? live.effect,
        ∀ m ∈ d.modifiers, m.duration.Steady (· ∈ e.touched rules)) ∧
      ∀ live ∈ e.effects.values, ∀ d ∈ rules.effects.get? live.effect, live.Roomy d)
    ⟨fun ⟨steady, templates, roomy⟩ => ⟨steady, templates, roomy⟩,
      fun restorable => ⟨restorable.steady, restorable.templates, restorable.roomy⟩⟩

theorem mem_savedDurations {e : Entity π} {c : Condition π} : c ∈ e.savedDurations ↔
    (∃ m ∈ e.modifiers.toList, plain m.source = true ∧ m.duration = c) ∨
      ∃ live ∈ e.effects.values, ∃ s ∈ live.held, s.duration = c := by
  unfold savedDurations
  simp only [List.mem_append, List.mem_map, List.mem_filter, List.mem_flatMap, and_assoc]

theorem mem_touched_of_modifier {rules : Rulebook π} {e : Entity π} {m : Modifier π}
    (member : m ∈ e.modifiers.toList) : m.stat ∈ e.touched rules :=
  List.mem_append_left _ (List.mem_map_of_mem member)

theorem mem_touched_of_template {rules : Rulebook π} {e : Entity π} {live : LiveEffect π}
    {d : EffectDefinition π} (lives : live ∈ e.effects.values)
    (registered : rules.effects.get? live.effect = some d) {m : Modifier π}
    (member : m ∈ d.modifiers) : m.stat ∈ e.touched rules := by
  refine List.mem_append_right _ (List.mem_flatMap.2 ⟨live, lives, ?_⟩)
  rw [registered]
  exact List.mem_map_of_mem member

variable [CustomTrigger π]

structure Saveable (rules : Rulebook π) (e : Entity π) : Prop where
  tidy : e.Tidy
  ranked : e.Ranked rules.operators
  modifiers : ∀ stat, ∀ m ∈ e.modifiers.get stat, m.duration.Exact (rules.readings e) ∧
    m.active = (!m.duration.holds m.isSourced) ∧ (m.isSourced = false → m.active = true)
  effects : ∀ effect live, e.effects.get? effect = some live →
    ∃ d, rules.effects.get? effect = some d ∧ live.Stocked d ∧ live.Finished ∧
      live.count.toNat = live.activeSum ∧ live.active = decide (0 < live.count)
  stacked : ∀ effect live, e.effects.get? effect = some live → ∀ s ∈ live.held,
    s.duration.Exact (rules.readings e) ∧ s.active = (!s.duration.holds s.isSourced) ∧
      s.Lasts rules effect

variable {rules : Rulebook π} {saved e e' t : Entity π} {touched : StatName → Prop}

theorem Saveable.idle (saveable : saved.Saveable rules) (stat : StatName)
    (free : stat ∉ saved.touched rules) : saved.modifiers.get stat = [] := by
  refine List.eq_nil_iff_forall_not_mem.2 fun m member => free ?_
  rw [← saveable.tidy.filed stat m member]
  exact mem_touched_of_modifier (ModifierLists.mem_toList.2 ⟨stat, member⟩)

omit [CustomTrigger π] in
/-- Modifiers that no effect applies stand in the snapshot, each stat's in their order. -/
theorem Tidy.plainModifiers (tidy : saved.Tidy) (stat : StatName) :
    (saved.modifiers.toList.filter fun m => plain m.source).filter (fun m => m.stat = stat) =
      (saved.modifiers.get stat).filter fun m => plain m.source := by
  rw [List.filter_comm, ModifierLists.filter_toList tidy.filed]

/-- An effect that is not live has no modifiers. -/
theorem Loading.share_of_absent (loading : e.Loading rules saved touched) {effect : EffectName}
    (absent : e.effects.get? effect = none) (stat : StatName) :
    e.share (ofEffect effect) stat = [] := by
  unfold share
  rw [List.map_eq_nil_iff, List.filter_eq_nil_iff]
  intro m member owned
  have sourced : m.source = some (SourceTag.ofEffect effect) := of_decide_eq_true owned
  rcases loading.patrons stat m member with none | ⟨other, same, live⟩
  · rw [Modifier.patron_of_ofEffect sourced] at none
    cases none
  · rw [sourced, Option.some.injEq, SourceTag.ofEffect_inj] at same
    rw [Table.contains, ← same, absent] at live
    cases live

omit [CustomTrigger π] in
theorem due_of_absent {d : EffectDefinition π} (absent : e.effects.get? d.effect = none) :
    e.due d = [] := by
  unfold due
  rw [absent]

/-- An effect that is not live has none of its stacks again. -/
theorem Holding.of_absent {d : EffectDefinition π}
    (registered : rules.effects.get? d.effect = some d) (loading : e.Loading rules saved touched)
    (absent : e.effects.get? d.effect = none) : e.Holding rules saved d [] where
  same live found := by
    rw [absent] at found
    cases found
  gone _ := rfl
  count live found := by
    rw [absent] at found
    cases found
  active live found := by
    rw [absent] at found
    cases found
  own stat := by
    rw [loading.share_of_absent absent, owed_of_registered registered, due_of_absent absent]
    rfl

/-- What has come back stays while another effect comes back. -/
theorem Holding.beside {d : EffectDefinition π} {held : List (Stack π)} {effect : EffectName}
    (holding : e.Holding rules saved d held) (beside : e.Beside effect e')
    (different : d.effect ≠ effect) : e'.Holding rules saved d held := by
  have found := beside.effects d.effect different
  have foreign : ofEffect d.effect (some (SourceTag.ofEffect effect)) = false :=
    decide_eq_false fun same => different (SourceTag.ofEffect_inj.1 (Option.some.inj same)).symm
  refine ⟨?_, ?_, ?_, ?_, fun stat => ?_⟩
  · rw [found]
    exact holding.same
  · rw [found]
    exact holding.gone
  · rw [found]
    exact holding.count
  · rw [found]
    exact holding.active
  · have owes : e'.owed rules (rules.readings saved) d.effect stat =
        e.owed rules (rules.readings saved) d.effect stat := by
      unfold owed due
      split
      · rename_i definition registered
        rw [rules.filed _ _ registered, found]
      · rfl
    rw [beside.shares _ foreign, owes]
    exact holding.own stat

omit [CustomTrigger π] in
theorem Tidy.get?_of_values (tidy : saved.Tidy) {live : LiveEffect π}
    (listed : live ∈ saved.effects.values) : saved.effects.get? live.effect = some live := by
  obtain ⟨name, found⟩ := Table.mem_values.1 listed
  rw [(tidy.effects name live found).filed]
  exact found

omit [CustomTrigger π] in
/-- The live effects stand in the order of their names. -/
theorem Tidy.values_ascending (tidy : saved.Tidy) :
    saved.effects.values.Pairwise fun a b => a.effect < b.effect := by
  have filed (entry : String × LiveEffect π) (member : entry ∈ saved.effects.entries) :
      entry.2.effect = entry.1 :=
    (tidy.effects _ _ (Table.mem_entries_iff.1 member)).filed
  unfold Table.values
  rw [List.pairwise_map]
  refine saved.effects.sorted.imp_of_mem fun first second before => ?_
  rw [filed _ first, filed _ second]
  exact before

structure Restoring (rules : Rulebook π) (e saved : Entity π) (touched : StatName → Prop)
    (done : List (LiveEffect π)) : Prop where
  loading : e.Loading rules saved touched
  plain : ∀ stat, e.share plain stat = saved.share plain stat
  back : ∀ live ∈ done, ∀ d, rules.effects.get? live.effect = some d →
    e.Holding rules saved d live.held
  waiting : ∀ effect, (∀ live ∈ done, live.effect ≠ effect) → e.effects.get? effect = none

/-- Another effect has come back. -/
theorem Restoring.next {done : List (LiveEffect π)} {live : LiveEffect π} {d : EffectDefinition π}
    (restoring : e.Restoring rules saved touched done) (loading : e'.Loading rules saved touched)
    (named : d.effect = live.effect) (registered : rules.effects.get? d.effect = some d)
    (others : ∀ other ∈ done, other.effect ≠ live.effect)
    (holding : e'.Holding rules saved d live.held) (beside : e.Beside d.effect e') :
    e'.Restoring rules saved touched (done ++ [live]) where
  loading := loading
  plain stat := by
    have foreign : Entity.plain (some (SourceTag.ofEffect d.effect)) = false := by
      unfold Entity.plain
      rw [Option.any_some, SourceTag.isOfEffect_ofEffect]
      rfl
    rw [beside.shares _ foreign]
    exact restoring.plain stat
  back other member d' registered' := by
    rcases List.mem_append.1 member with before | last
    · refine (restoring.back other before d' registered').beside beside ?_
      rw [rules.filed _ d' registered', named]
      exact others other before
    · rw [List.mem_singleton.1 last] at registered' ⊢
      rw [← named, registered] at registered'
      cases registered'
      exact holding
  waiting effect others := by
    have different : effect ≠ d.effect := fun same =>
      others live (List.mem_append_right done (List.mem_singleton_self live)) (named.symm.trans same.symm)
    rw [beside.effects effect different]
    exact restoring.waiting effect fun other member =>
      others other (List.mem_append_left [live] member)

end Entity

/-! ### Loading modifiers -/

namespace Engine

open Act

variable [CustomTrigger π] {rules : Rulebook π} {saved e : Entity π} {touched : StatName → Prop}
  {levels : Nat}

section

variable (plain : rules.statRules = ∅) (saveable : saved.Saveable rules)

include plain saveable

/-- A plain modifier is added again. -/
theorem insertPlain_brings (idle : ∀ stat, ¬touched stat → saved.modifiers.get stat = [])
    {nested : Nested π} (announces : Restful rules nested)
    (loading : e.Loading rules saved touched) (bare : e.effects = ∅) {stat : StatName}
    {m : Modifier π} (member : m ∈ saved.modifiers.get stat) (own : m.patron = none)
    (there : touched m.stat) (steady : m.duration.Steady touched) :
    ∃ e', (insertModifier nested rules m.pristine m.source).Brings e (.modifier e.nextHandle) e' ∧
      e'.Loading rules saved touched ∧ e'.effects = ∅ ∧
      ∀ owns other, e'.share owns other = if other = m.stat ∧ owns m.source = true then
        ModifierLists.place rules.operators m.kernel (e.share owns other) else e.share owns other := by
  obtain ⟨exact, active, lasts⟩ := saveable.modifiers stat m member
  have handled : e.takeHandle.2.Loading rules saved touched :=
    loading.of_same loading.tidy.takeHandle rfl rfl rfl
  let m' : Modifier π := { m with id := e.nextHandle, attached := true }
  have attached : ({ m.pristine with id := e.nextHandle }).attach
      (rules.readings e.takeHandle.2) m.source = m' :=
    Modifier.attach_pristine (exact.of_steady steady (handled.agree plain idle)) active e.nextHandle
  have kept : m'.active = true ∨ m'.isSourced = true := by
    cases sourced : m.isSourced with
    | false => exact .inl (lasts sourced)
    | true => exact .inr sourced
  have added : (e.takeHandle.2.addModifier rules.operators m').Loading rules saved touched := by
    refine loading.addModifier rfl there (.inl own) (fun a present different => ?_) steady exact
    rcases loading.patrons _ a present with none | ⟨effect, -, live⟩
    · exact absurd (none.trans own.symm) different
    · rw [bare] at live
      cases live
  refine ⟨_, insertModifier_brings attached kept (announces _ _ (added.atRest plain idle)), added,
    bare, fun owns other => ?_⟩
  exact Entity.share_addModifier handled.ranked m'

variable (builtin : rules.conditionTypes = .builtin)

include builtin

/-- The first part of loading: all plain modifiers are there again. -/
theorem addModifiers_brings (storable : saved.Storable) (restorable : saved.Restorable rules)
    (announces : Restful rules (serve rules levels))
    (loading : e.Loading rules saved (· ∈ saved.touched rules)) (bare : e.effects = ∅)
    (empty : e.modifiers = .empty) :
    ∃ e', Brings (saved.snapshot.modifiers.forM (Snapshot.addModifier rules levels)).run e
        (.ok ()) e' ∧ e'.Restoring rules saved (· ∈ saved.touched rules) [] := by
  let list := saved.modifiers.toList.filter fun m => Entity.plain m.source
  let Relies (before : List (Modifier π)) (e : Entity π) : Prop :=
    e.Loading rules saved (· ∈ saved.touched rules) ∧ e.effects = ∅ ∧
      ∀ stat, e.share Entity.plain stat =
        (before.filter fun m => m.stat = stat).map Modifier.kernel
  have round (before : List (Modifier π)) (m : Modifier π) (after : List (Modifier π)) (e : Entity π)
      (whole : list = before ++ m :: after) (relies : Relies before e) :
      ∃ e', Brings (Snapshot.addModifier rules levels m.form).run e (.ok ()) e' ∧
        Relies (before ++ [m]) e' := by
    obtain ⟨loading, bare, shares⟩ := relies
    have listed : m ∈ list := whole ▸ List.mem_append_right before (List.mem_cons_self ..)
    obtain ⟨present, source⟩ := List.mem_filter.1 listed
    obtain ⟨stat, member⟩ := ModifierLists.mem_toList.1 present
    have kept := Entity.mem_savedDurations.2 (.inl ⟨m, present, source, rfl⟩)
    obtain ⟨e', inserts, loading', bare', placed⟩ := insertPlain_brings plain
      saveable saveable.idle announces loading bare member (Entity.patron_eq_none.2 source)
      (Entity.mem_touched_of_modifier present) (restorable.steady _ kept)
    refine ⟨e', ?_, loading', bare', fun other => ?_⟩
    · unfold Snapshot.addModifier
      rw [builtin, ModifierForm.build_form .builtin (storable _ kept)]
      exact (inserts.map Except.ok).bind (.pure (Except.ok ()) e')
    · rw [placed, shares, List.filter_append, List.map_append]
      by_cases same : other = m.stat
      · subst same
        -- The snapshot lists them in the order of ranks, so each goes behind those before it.
        have ranked := (saveable.ranked m.stat).sublist
          (List.filter_sublist (p := fun m => Entity.plain m.source))
        rw [← saveable.tidy.plainModifiers m.stat] at ranked
        change rules.operators.Ranked (list.filter _) at ranked
        rw [whole, List.filter_append, List.filter_cons_of_pos (by simp)] at ranked
        rw [if_pos ⟨rfl, source⟩, OperatorTable.place_last]
        · simp
        · intro a first
          obtain ⟨b, earlier, rfl⟩ := List.mem_map.1 first
          exact (List.pairwise_append.1 ranked).2.2 b earlier m (List.mem_cons_self ..)
      · have last : [m].filter (fun m => m.stat = other) = [] := by simp [Ne.symm same]
        rw [if_neg fun both => same both.1, last, List.map_nil, List.append_nil]
  have start (stat : StatName) : e.share Entity.plain stat = [] := by
    unfold Entity.share
    rw [empty]
    rfl
  obtain ⟨e', adds, loading', bare', shares⟩ := Brings.forME Relies list round ⟨loading, bare, start⟩
  change ∃ e', Brings (ExceptT.run ((list.map Modifier.form).forM _)) _ _ _ ∧ _
  rw [List.forM_eq_forM, List.forM_map, ← List.forM_eq_forM]
  refine ⟨e', adds, loading', fun stat => ?_, fun _ member => (List.not_mem_nil member).elim,
    fun effect _ => by rw [bare', Table.get?_empty]⟩
  rw [shares, saveable.tidy.plainModifiers]
  rfl

/-! ### Loading effects -/

/-- All stacks of an effect are there again. -/
theorem addHeld_brings (idle : ∀ stat, ¬touched stat → saved.modifiers.get stat = [])
    (announces : Restful rules (serve rules levels)) (mortal : rules.immunity = none)
    {d : EffectDefinition π} (registered : rules.effects.get? d.effect = some d)
    (silent : d.Silent) (templates : ∀ m ∈ d.modifiers, m.duration.Steady touched ∧ touched m.stat)
    {live : LiveEffect π} (found : saved.effects.get? d.effect = some live)
    (storable : ∀ s ∈ live.held, s.duration.Storable)
    (steady : ∀ s ∈ live.held, s.duration.Steady touched) (roomy : live.Roomy d)
    (loading : e.Loading rules saved touched) (absent : e.effects.get? d.effect = none)
    (latest : ∀ effect, e.effects.contains effect = true → effect < d.effect) :
    ∃ e', Brings ((live.held.map Stack.form).forM (Snapshot.addStack rules levels d.effect)).run e
        (.ok ()) e' ∧
      e'.Loading rules saved touched ∧ e'.Holding rules saved d live.held ∧
      e.Beside d.effect e' := by
  obtain ⟨d', registered', stocked, -, counted, -⟩ := saveable.effects d.effect live found
  rw [registered] at registered'
  cases registered'
  have bounded : live.activeSum < UInt32.size := counted ▸ live.count.toNat_lt
  let Relies (before : List (Stack π)) (e₁ : Entity π) : Prop :=
    e₁.Loading rules saved touched ∧ e₁.Holding rules saved d before ∧ e.Beside d.effect e₁
  have round (before : List (Stack π)) (s : Stack π) (after : List (Stack π)) (e₁ : Entity π)
      (whole : live.held = before ++ s :: after) (relies : Relies before e₁) :
      ∃ e₂, Brings (Snapshot.addStack rules levels d.effect s.form).run e₁ (.ok ()) e₂ ∧
        Relies (before ++ [s]) e₂ := by
    obtain ⟨loading, holding, beside⟩ := relies
    have member : s ∈ live.held := whole ▸ List.mem_append_right before (List.mem_cons_self ..)
    obtain ⟨exact, active, lasts⟩ := saveable.stacked d.effect live found s member
    have last := beside.latest fun effect lives => String.lt_asymm (latest effect lives)
    obtain ⟨outcome, e₂, adds, loading₂, holding₂, -, beside₂⟩ := addStack_brings plain idle announces
      mortal registered silent templates stocked roomy bounded whole (steady s member) exact active
      (fun none => lasts none d registered) loading holding last
    refine ⟨e₂, ?_, loading₂, holding₂, beside.trans beside₂⟩
    unfold Snapshot.addStack
    rw [builtin, StackForm.build_form .builtin (storable s member)]
    exact adds.bind (.pure (Except.ok ()) e₂)
  rw [List.forM_eq_forM, List.forM_map, ← List.forM_eq_forM]
  exact Brings.forME Relies live.held round
    ⟨loading, .of_absent registered loading absent, fun _ _ => rfl, fun _ _ _ => rfl⟩

/-- The second part of loading: all effects are there again. -/
theorem addEffects_brings (storable : saved.Storable) (restorable : saved.Restorable rules)
    (announces : Restful rules (serve rules levels)) (mortal : rules.immunity = none)
    (hookless : ∀ hook script, ¬rules.Starts hook script)
    (start : e.Restoring rules saved (· ∈ saved.touched rules) []) :
    ∃ t, Brings (saved.snapshot.effects.forM fun live =>
        live.held.forM (Snapshot.addStack rules levels live.effect)).run e (.ok ()) t ∧
      t.Restoring rules saved (· ∈ saved.touched rules) saved.effects.values := by
  have round (before : List (LiveEffect π)) (live : LiveEffect π) (after : List (LiveEffect π))
      (e : Entity π) (whole : saved.effects.values = before ++ live :: after)
      (restoring : e.Restoring rules saved (· ∈ saved.touched rules) before) :
      ∃ e', Brings ((live.held.map Stack.form).forM
          (Snapshot.addStack rules levels live.effect)).run e (.ok ()) e' ∧
        e'.Restoring rules saved (· ∈ saved.touched rules) (before ++ [live]) := by
    have listed : live ∈ saved.effects.values :=
      whole ▸ List.mem_append_right before (List.mem_cons_self ..)
    have found := saveable.tidy.get?_of_values listed
    have kept (s : Stack π) (member : s ∈ live.held) : s.duration ∈ saved.savedDurations :=
      Entity.mem_savedDurations.2 (.inr ⟨live, listed, s, member, rfl⟩)
    obtain ⟨d, registered, -⟩ := saveable.effects _ live found
    have templates (m : Modifier π) (member : m ∈ d.modifiers) :=
      And.intro (restorable.templates live listed d registered m member)
        (Entity.mem_touched_of_template listed registered member)
    have roomy := restorable.roomy live listed d registered
    -- Names ascend in the snapshot, so whatever is live already stands before this effect.
    have ascending := saveable.tidy.values_ascending
    rw [whole] at ascending
    have earlier (other : LiveEffect π) (member : other ∈ before) : other.effect < live.effect :=
      (List.pairwise_append.1 ascending).2.2 other member live (List.mem_cons_self ..)
    have others (other : LiveEffect π) (member : other ∈ before) : other.effect ≠ live.effect :=
      fun same => String.lt_irrefl live.effect (same ▸ earlier other member)
    have absent : e.effects.get? live.effect = none := restoring.waiting _ others
    have latest (effect : EffectName) (lives : e.effects.contains effect = true) :
        effect < live.effect := by
      by_contra later
      rw [Table.contains, restoring.waiting effect fun other member same =>
        later (same ▸ earlier other member)] at lives
      cases lives
    have named := rules.filed _ d registered
    rw [← named] at registered found absent latest ⊢
    obtain ⟨e', adds, loading, holding, beside⟩ := addHeld_brings plain saveable builtin
      saveable.idle announces mortal registered (rules.silent hookless registered) templates found
      (fun s member => storable _ (kept s member))
      (fun s member => restorable.steady _ (kept s member)) roomy restoring.loading absent latest
    exact ⟨e', adds, restoring.next loading named registered others holding beside⟩
  change ∃ t, Brings (ExceptT.run ((saved.effects.values.map _).forM _)) _ _ _ ∧ _
  rw [List.forM_eq_forM, List.forM_map, ← List.forM_eq_forM]
  exact Brings.forME (fun before e => e.Restoring rules saved (· ∈ saved.touched rules) before) _
    round start

end

end Engine

/-! ### What has come back -/

namespace Entity

variable [CustomTrigger π] {rules : Rulebook π} {saved t : Entity π} {touched : StatName → Prop}

/-- What an entity that came back has for a stat: the plain modifiers as they were, and those that
the effects owe as they are applied anew; of modifiers with operators of one rank the plain ones come
first, then those of the effects in the order of their names. -/
structure Rebuilds (rules : Rulebook π) (e t : Entity π) (stat : StatName) : Prop where
  plain : t.share plain stat = e.share plain stat
  own : ∀ effect, t.share (ofEffect effect) stat =
    (e.owed rules (rules.readings e) effect stat).map Modifier.kernel
  ranked : rules.operators.Ranked (t.modifiers.get stat)
  ordered : (t.modifiers.get stat).Pairwise fun a b =>
    rules.operators.rank a.op = rules.operators.rank b.op → a.patron ≠ b.patron → a.patron < b.patron

/-- The modifiers of a stat come to the same as if they had just been put together: effects apply
what they would apply anew, and what would change places commutes. -/
structure Intact (rules : Rulebook π) (e : Entity π) (stat : StatName) : Prop where
  own : ∀ effect, e.share (ofEffect effect) stat =
    (e.owed rules (rules.readings e) effect stat).map Modifier.kernel
  commute : (e.modifiers.get stat).Pairwise fun a b =>
    rules.operators.rank a.op = rules.operators.rank b.op → b.patron < a.patron →
      OperatorTable.Commute rules.operators b a

section

variable (saveable : saved.Saveable rules)
  (restoring : t.Restoring rules saved touched saved.effects.values)

include saveable restoring

theorem Restoring.found {name : EffectName} {live : LiveEffect π}
    (lives : saved.effects.get? name = some live) :
    ∃ live', t.effects.get? name = some live' ∧ live'.effect = live.effect ∧
      live'.held.map Stack.kernel = live.held.map Stack.kernel ∧ live'.count = live.count ∧
      live'.active = live.active := by
  have named := (saveable.tidy.effects name live lives).filed
  obtain ⟨d, registered, -, finished, counted, active⟩ := saveable.effects name live lives
  have same := rules.filed name d registered
  subst same
  have holding := restoring.back live (Table.mem_values.2 ⟨_, lives⟩) d (named ▸ registered)
  cases there : t.effects.get? d.effect with
  | none => exact absurd (holding.gone there) finished.held
  | some live' =>
      have held := holding.same live' there
      have count : live'.count = live.count := by
        rw [← UInt32.toNat_inj, holding.count live' there, counted, LiveEffect.activeSum_eq,
          LiveEffect.activeSum_eq, Stack.total_active_of_kernel held]
      refine ⟨live', rfl, ?_, held, count, ?_⟩
      · rw [(restoring.loading.tidy.effects _ live' there).filed, named]
      · rw [holding.active live' there, active, count]

theorem Restoring.absent {name : EffectName} (gone : saved.effects.get? name = none) :
    t.effects.get? name = none := by
  refine restoring.waiting name fun live listed same => ?_
  rw [← same, saveable.tidy.get?_of_values listed] at gone
  cases gone

theorem Restoring.activeCount_eq (effect : EffectName) :
    t.activeCount effect = saved.activeCount effect := by
  unfold activeCount
  cases lives : saved.effects.get? effect with
  | none => rw [restoring.absent saveable lives]
  | some live =>
      obtain ⟨live', there, -, -, count, -⟩ := restoring.found saveable lives
      rw [there, Option.map_some, Option.map_some, count]

theorem Restoring.hasEffect_eq (effect : EffectName) :
    t.hasEffect effect = saved.hasEffect effect := by
  unfold hasEffect
  cases lives : saved.effects.get? effect with
  | none => rw [restoring.absent saveable lives]
  | some live =>
      obtain ⟨live', there, -, -, -, active⟩ := restoring.found saveable lives
      rw [there, Option.any_some, Option.any_some, active]

theorem Restoring.snapshot_eq : t.snapshot = saved.snapshot := by
  have modifiers : t.snapshot.modifiers = saved.snapshot.modifiers := by
    refine ModifierLists.map_filter_toList_eq fun stat => ?_
    have forms (e : Entity π) : ((e.modifiers.get stat).filter fun m => Entity.plain m.source).map
        Modifier.form = (e.share Entity.plain stat).map Modifier.form := by
      unfold share
      rw [List.map_map]
      rfl
    exact (forms t).trans ((congrArg _ (restoring.plain stat)).trans (forms saved).symm)
  let part (live : LiveEffect π) : EffectSnapshot := ⟨live.effect, live.held.map Stack.form⟩
  have effects : t.effects.values.map part = saved.effects.values.map part := by
    rw [← Table.values_mapValues, ← Table.values_mapValues]
    refine congrArg Table.values (Table.ext_get? fun name => ?_)
    rw [Table.get?_mapValues, Table.get?_mapValues]
    cases lives : saved.effects.get? name with
    | none => rw [restoring.absent saveable lives]
    | some live =>
        obtain ⟨live', there, named, held, -⟩ := restoring.found saveable lives
        have forms (held : List (Stack π)) :
            held.map Stack.form = (held.map Stack.kernel).map Stack.form := by
          rw [List.map_map]
          rfl
        rw [there, Option.map_some, Option.map_some]
        change some (EffectSnapshot.mk live'.effect (live'.held.map Stack.form)) = _
        rw [named, forms, held, ← forms]
  change Snapshot.mk t.values t.snapshot.modifiers (t.effects.values.map part) = _
  rw [restoring.loading.values, modifiers, effects]
  rfl

theorem Restoring.rebuilds (stat : StatName) : saved.Rebuilds rules t stat where
  plain := restoring.plain stat
  own effect := by
    cases lives : saved.effects.get? effect with
    | none =>
        have owes : saved.owed rules (rules.readings saved) effect stat = [] := by
          unfold owed
          split
          · rename_i d registered
            have same := rules.filed effect d registered
            subst same
            rw [due_of_absent lives]
            rfl
          · rfl
        rw [restoring.loading.share_of_absent (restoring.absent saveable lives), owes]
        rfl
    | some live =>
        obtain ⟨d, registered, -⟩ := saveable.effects effect live lives
        have same := rules.filed effect d registered
        subst same
        have named := (saveable.tidy.effects _ live lives).filed
        have holding := restoring.back live (Table.mem_values.2 ⟨_, lives⟩) d (named ▸ registered)
        obtain ⟨live', there, -, -, count, active⟩ := restoring.found saveable lives
        rw [holding.own, owed_of_registered registered, owed_of_registered registered,
          Engine.due_of_live there, Engine.due_of_live lives, count, active]
  ranked := restoring.loading.ranked stat
  ordered := restoring.loading.ordered stat

end

/-! ### What it calculates -/

omit [CustomTrigger π] in
/-- The modifiers of a patron, or the plain ones, are a share. -/
theorem filter_patron {e e' : Entity π} {stat : StatName}
    (plain : e.share plain stat = e'.share plain stat)
    (own : ∀ effect, e.share (ofEffect effect) stat = e'.share (ofEffect effect) stat)
    (patron : Option SourceTag) :
    ((e.modifiers.get stat).map Modifier.kernel).filter (fun m => m.patron = patron) =
      ((e'.modifiers.get stat).map Modifier.kernel).filter fun m => m.patron = patron := by
  have shares (owns : Option SourceTag → Bool)
      (decides : ∀ m : Modifier π, owns m.source = true ↔ m.patron = patron) (e : Entity π) :
      ((e.modifiers.get stat).map Modifier.kernel).filter (fun m => m.patron = patron) =
        e.share owns stat := by
    rw [List.filter_map]
    unfold share
    congr 1
    refine List.filter_congr fun m _ => ?_
    rw [Function.comp_apply, Modifier.patron_kernel, Bool.eq_iff_iff, decides, decide_eq_true_eq]
  cases patron with
  | none =>
      rw [shares Entity.plain fun m => patron_eq_none.symm, shares Entity.plain fun m =>
        patron_eq_none.symm, plain]
  | some tag =>
      by_cases marked : ∃ effect, tag = SourceTag.ofEffect effect
      · obtain ⟨effect, rfl⟩ := marked
        have decides (m : Modifier π) : ofEffect effect m.source = true ↔
            m.patron = some (SourceTag.ofEffect effect) := by
          rw [patron_eq_some, and_iff_left ⟨effect, rfl⟩]
          exact decide_eq_true_iff
        rw [shares _ decides, shares _ decides, own]
      · have none (e : Entity π) : ((e.modifiers.get stat).map Modifier.kernel).filter
            (fun m => m.patron = some tag) = [] := by
          rw [List.filter_eq_nil_iff]
          intro m _ owned
          exact marked (patron_eq_some.1 (of_decide_eq_true owned)).2
        rw [none, none]

omit [CustomTrigger π] in
theorem calculate_filed {operators : OperatorTable} {base : Float32} {stat : StatName}
    {list : List (Modifier π)} (filed : ∀ m ∈ list, m.stat = stat) (selection : Selection) :
    operators.calculate base list selection =
      operators.foldInto base 0 ((list.map Modifier.kernel).filter fun m => !selection.skips m) := by
  have own : list.map Modifier.gist = (list.map Modifier.kernel).map Modifier.gist := by
    rw [List.map_map]
    rfl
  rw [operators.calculate_gist base own]
  unfold OperatorTable.calculate OperatorTable.selected
  cases list with
  | nil => rfl
  | cons first rest =>
      rw [List.map_cons]
      dsimp only
      rw [← List.map_cons, List.takeWhile_eq_self_iff.2]
      intro m member
      obtain ⟨before, present, rfl⟩ := List.mem_map.1 member
      rw [decide_eq_true_eq, Modifier.kernel_stat, Modifier.kernel_stat, filed _ present,
        filed _ (List.mem_cons_self ..)]

/-- Where the modifiers are intact the entity that came back calculates the same value. -/
theorem Rebuilds.calculate_eq {stat : StatName} (plain : rules.statRules = ∅)
    (rebuilds : saved.Rebuilds rules t stat) (intact : saved.Intact rules stat)
    (values : t.values = saved.values) (ranked : saved.Ranked rules.operators)
    (filed : ∀ m ∈ t.modifiers.get stat, m.stat = stat)
    (filed' : ∀ m ∈ saved.modifiers.get stat, m.stat = stat) (selection : Selection) :
    rules.calculate t stat selection = rules.calculate saved stat selection := by
  have base : rules.stat t stat = rules.stat saved stat := by
    unfold Rulebook.stat
    rw [values]
  have own (effect : EffectName) : saved.share (ofEffect effect) stat =
      t.share (ofEffect effect) stat :=
    (intact.own effect).trans (rebuilds.own effect).symm
  have bare {list : List (Modifier π)} (ranked : rules.operators.Ranked list) :
      rules.operators.Ranked (list.map Modifier.kernel) := by
    refine ranked.of_ops ?_
    rw [List.map_map]
    rfl
  have shuffled : rules.operators.Shuffled Modifier.patron (· < ·)
      (((saved.modifiers.get stat).map Modifier.kernel).filter fun m => !selection.skips m)
      (((t.modifiers.get stat).map Modifier.kernel).filter fun m => !selection.skips m) := by
    refine ⟨(bare (ranked stat)).sublist List.filter_sublist,
      (bare rebuilds.ranked).sublist List.filter_sublist, fun patron => ?_, ?_, ?_⟩
    · rw [List.filter_comm, filter_patron rebuilds.plain.symm own patron, List.filter_comm]
    · exact (List.pairwise_map.2 rebuilds.ordered).sublist List.filter_sublist
    · refine (List.pairwise_map.2 (intact.commute.imp ?_)).sublist List.filter_sublist
      exact fun commutes rank before => ⟨(commutes rank before).percent, (commutes rank before).apply⟩
  rw [rules.calculate_of_plain plain, rules.calculate_of_plain plain, base,
    calculate_filed filed, calculate_filed filed']
  exact (shuffled.foldInto_eq ..).symm

end Entity

/-! ### Runs -/

section

variable [CustomTrigger π] {rules : Rulebook π} {snapshots : Snapshot → Prop} {w : World π}
  (plain : rules.statRules = ∅) (hookless : ∀ hook script, ¬rules.Starts hook script)
  (mortal : rules.immunity = none) (watched : WatchedOnly π) (fixed : FixedWatch π)
  (reached : Reached rules snapshots (fun _ c => c.Fresh) w)

include plain hookless mortal watched fixed reached

theorem Reached.saveable : w.entity.Saveable rules := by
  obtain ⟨sound, finished⟩ := reached.settled
  have wired := reached.wired plain watched (reached.handed hookless)
  have exact {owner : Owner} {c : Condition π} {gate : Option Gate}
      (bears : w.entity.Bears owner c gate) : c.Exact (rules.readings w.entity) :=
    reached.exact plain watched fixed (reached.handed hookless) bears
  have susceptible (e : Entity π) (effect : EffectName) : rules.isImmune e effect = false := by
    unfold Rulebook.isImmune
    rw [mortal]
  refine ⟨sound.tidy, reached.ranked, fun stat m member => ?_, fun effect live found => ?_,
    fun effect live found s member => ?_⟩
  · have seated := wired.seated _ _ _ (.modifier member)
    exact ⟨exact (.modifier member), seated.active _ rfl nofun, seated.lasts _ rfl⟩
  · obtain ⟨d, registered, stocked⟩ := sound.stocked effect live found
    have tallied := sound.tallied effect live id found
    refine ⟨d, registered, stocked, ?_, tallied.count, ?_⟩
    · by_contra unfinished
      exact finished effect live.serial ⟨live, found, rfl, unfinished⟩
    · rw [tallied.active (fun _ => false) susceptible]
      exact Bool.and_true _
  · have seated := wired.seated _ _ _ (.stack found member)
    exact ⟨exact (.stack found member), seated.active _ rfl nofun,
      reached.lasting effect live found s member⟩

/-- An entity without hooks, rules for stats, immunity and conditions of its own comes back from its
snapshot, if no part of it depends on a part behind it: nothing is refused, the same snapshot can be
taken again, and every effect has its count. For each stat it has the plain modifiers and what the
effects apply anew, and where that is what there was before it calculates the same. -/
theorem restored_as_saved (builtin : rules.conditionTypes = .builtin)
    (storable : w.entity.Storable) (restorable : w.entity.Restorable rules) {levels : Nat}
    (positive : 0 < levels) :
    ∃ t : World π, w.entity.snapshot.restore rules levels = .ok (.ok ()) t ∧
      t.entity.snapshot = w.entity.snapshot ∧
      (∀ effect, t.entity.activeCount effect = w.entity.activeCount effect ∧
        t.entity.hasEffect effect = w.entity.hasEffect effect) ∧
      ∀ stat, w.entity.Rebuilds rules t.entity stat ∧
        (w.entity.Intact rules stat → ∀ selection,
          rules.calculate t.entity stat selection = rules.calculate w.entity stat selection) := by
  have saveable := reached.saveable plain hookless mortal watched fixed
  have announces : Engine.Restful rules (Engine.serve rules levels) :=
    fun e stat rest => Engine.announce_brings plain rest positive stat
  let start : Entity π := { Entity.new with values := w.entity.values }
  have loading : start.Loading rules w.entity (· ∈ w.entity.touched rules) :=
    { tidy := { Entity.Tidy.new with }
      values := rfl
      ranked := fun _ => .nil
      ordered := fun _ => .nil
      patrons := fun _ _ member => (List.not_mem_nil member).elim
      confined := fun _ _ => rfl
      trees := fun owner c gate bears => by
        cases bears with
        | modifier member => cases member
        | stack found _ => cases found
        | custom found _ => cases found }
  obtain ⟨e, modifiers, restoring⟩ := Engine.addModifiers_brings plain saveable builtin storable
    restorable announces loading rfl rfl
  obtain ⟨e', effects, restored⟩ := Engine.addEffects_brings plain saveable builtin storable restorable
    announces mortal hookless restoring
  have brings : Act.Brings (w.entity.snapshot.addParts rules levels).run start (.ok ()) e' :=
    modifiers.bind effects
  obtain ⟨t, loads, rfl⟩ := brings (.ofEntity start) rfl
  refine ⟨t, loads, restored.snapshot_eq saveable, fun effect =>
    ⟨restored.activeCount_eq saveable effect, restored.hasEffect_eq saveable effect⟩, fun stat => ?_⟩
  have rebuilds := restored.rebuilds saveable stat
  exact ⟨rebuilds, fun intact selection => rebuilds.calculate_eq plain intact restored.loading.values
    saveable.ranked (restored.loading.tidy.filed stat) (saveable.tidy.filed stat) selection⟩

end

def regen : EffectDefinition Empty :=
  { EffectDefinition.ofName "regen" with
    maxStack := 5
    stacking := .separate
    modifiers := [.ofParts "health_regen" .add 2] }

def regenRules : Rulebook Empty :=
  (((Rulebook.builtin.registerStat "health" 100).bind fun rules =>
    rules.registerEffect regen).toOption).getD .builtin

theorem regenRules_get? (name : EffectName) :
    regenRules.effects.get? name = if name = "regen" then some regen else none := by
  change ((∅ : Table (EffectDefinition Empty)).insert "regen" regen).get? name = _
  rw [Table.get?_insert]
  rfl

theorem regenRules_hookless (hook : Hook) (script : Script Empty Unit) :
    ¬regenRules.Starts hook script := by
  have values : regenRules.effects.values = [regen] := rfl
  exact Rulebook.hookless_of_values values (List.forall_mem_singleton.2 ⟨rfl, rfl, rfl, rfl⟩) rfl hook
    script

def regenCalls : List (Call Empty) :=
  [.setCurrent "health" 60,
    .addModifier { (.ofParts "health" .add 25 : Modifier Empty) with duration := .timed 10 } none,
    .addModifier (.ofParts "health" .percentMult 0.1) (some "amulet"),
    .addStack "regen" { (Stack.ofValue 2 : Stack Empty) with duration := .timed 8 } none,
    .addStack "regen" (.ofValue 1) (some "shrine"),
    .passTime 4]

theorem regenCalls_fresh : ∀ c ∈ regenCalls, c.Fresh := by
  intro c listed
  simp only [regenCalls, List.mem_cons, List.not_mem_nil, or_false] at listed
  rcases listed with rfl | rfl | rfl | rfl | rfl | rfl
  · trivial
  · exact ⟨rfl, by decide⟩
  · exact ⟨rfl, by decide⟩
  · exact ⟨rfl, by decide⟩
  · exact ⟨rfl, by decide⟩
  · trivial

/-- After four seconds everything comes back, with three stacks of the effect. -/
theorem regen_restored : ∃ w t : World Empty,
    Reached regenRules (fun _ => True) (fun _ c => c.Fresh) w ∧ w.entity.Storable ∧
      w.entity.Restorable regenRules ∧ w.entity.Intact regenRules "health_regen" ∧
      w.entity.snapshot.restore regenRules 6 = .ok (.ok ()) t ∧
      t.entity.snapshot = w.entity.snapshot ∧ t.entity.activeCount "regen" = 3 ∧
      regenRules.calculate t.entity "health_regen" .standard = 6 := by
  have made : ((Engine.performAll regenRules 6 regenCalls (.ofEntity .new)).any fun w =>
      w.entity.Storable && w.entity.Restorable regenRules && w.entity.activeCount "regen" = 3 &&
        regenRules.calculate w.entity "health_regen" .standard = 6 &&
        (w.entity.modifiers.get "health_regen").length = 1 &&
        ((w.entity.modifiers.get "health_regen").all fun m =>
          m.source = some (SourceTag.ofEffect "regen")) &&
        w.entity.share (Entity.ofEffect "regen") "health_regen" =
          (w.entity.owed regenRules (regenRules.readings w.entity) "regen" "health_regen").map
            Modifier.kernel) = true := by
    decide +kernel
  obtain ⟨w, run, checked⟩ := (Option.any_eq_true ..).1 made
  simp only [Bool.and_eq_true, decide_eq_true_eq, List.all_eq_true] at checked
  obtain ⟨⟨⟨⟨⟨⟨storable, restorable⟩, count⟩, value⟩, single⟩, sources⟩, applied⟩ := checked
  have reached : Reached regenRules (fun _ => True) (fun _ c => c.Fresh) w :=
    Engine.reached_of_performAll .new (fun c listed _ => regenCalls_fresh c listed) run
  have intact : w.entity.Intact regenRules "health_regen" := by
    refine ⟨fun effect => ?_, ?_⟩
    · by_cases own : effect = "regen"
      · rw [own]
        exact applied
      · have none : w.entity.share (Entity.ofEffect effect) "health_regen" = [] := by
          unfold Entity.share
          rw [List.map_eq_nil_iff, List.filter_eq_nil_iff]
          intro m member sourced
          rw [sources m member] at sourced
          exact own (SourceTag.ofEffect_inj.1 (Option.some.inj (of_decide_eq_true sourced))).symm
        rw [none, Entity.owed, regenRules_get?, if_neg own]
        rfl
    · obtain ⟨m, only⟩ := List.length_eq_one_iff.1 single
      rw [only]
      exact List.pairwise_singleton ..
  obtain ⟨t, restores, same, counts, stats⟩ := restored_as_saved rfl regenRules_hookless rfl nofun
    ⟨nofun, nofun⟩ reached rfl storable restorable (by decide : 0 < 6)
  exact ⟨w, t, reached, storable, restorable, intact, restores, same, (counts "regen").1.trans count,
    ((stats "health_regen").2 intact .standard).trans value⟩

def gated : Modifier Empty :=
  { (.ofParts "attack" .add 5 : Modifier Empty) with
    duration := .ofTrigger (.threshold ⟨"health", .greaterEquals, 100, true⟩) }

/-- A modifier of health keeps it from being full. When the snapshot is loaded the modifier of attack
comes first and finds health full, so it is thrown away. -/
theorem gated_lost : ∃ w t : World Empty,
    healthRules.statRules = ∅ ∧ (∀ hook script, ¬healthRules.Starts hook script) ∧
      healthRules.immunity = none ∧ healthRules.conditionTypes = .builtin ∧
      Reached healthRules Snapshot.Unmarked (fun _ c => c.Fresh ∧ c.Unmarked) w ∧
      w.entity.Storable ∧ w.entity.snapshot.restore healthRules 6 = .ok (.ok ()) t ∧
      t.entity.snapshot ≠ w.entity.snapshot ∧
      healthRules.calculate w.entity "attack" .standard = 5 ∧
      healthRules.calculate t.entity "attack" .standard = 0 := by
  have made : ((Engine.performAll healthRules 6
      [.addModifier (.ofParts "health" .add 50) none, .addModifier gated none] (.ofEntity .new)).any
      fun w => w.entity.Storable && w.entity.snapshot.modifiers.length = 2 &&
        healthRules.calculate w.entity "attack" .standard = 5 &&
        match w.entity.snapshot.restore healthRules 6 with
        | .ok (.ok ()) t => t.entity.snapshot.modifiers.length = 1 &&
          healthRules.calculate t.entity "attack" .standard = 0
        | _ => false) = true := by
    decide +kernel
  obtain ⟨w, run, checked⟩ := (Option.any_eq_true ..).1 made
  simp only [Bool.and_eq_true, decide_eq_true_eq] at checked
  obtain ⟨⟨⟨storable, two⟩, before⟩, loaded⟩ := checked
  split at loaded
  · rename_i t restores
    simp only [Bool.and_eq_true, decide_eq_true_eq] at loaded
    obtain ⟨one, after⟩ := loaded
    have reached : Reached healthRules Snapshot.Unmarked (fun _ c => c.Fresh ∧ c.Unmarked) w := by
      refine Engine.reached_of_performAll .new (fun c listed _ => ?_) run
      simp only [List.mem_cons, List.not_mem_nil, or_false] at listed
      rcases listed with rfl | rfl
      · exact ⟨⟨rfl, by decide⟩, by decide, by decide⟩
      · exact ⟨⟨rfl, by decide⟩, by decide, by decide⟩
    have hookless (hook : Hook) (script : Script Empty Unit) : ¬healthRules.Starts hook script :=
      Rulebook.hookless_of_silent (fun _ _ registered => by cases registered) rfl hook script
    refine ⟨w, t, rfl, hookless, rfl, rfl, reached, storable, restores, fun same => ?_, before, after⟩
    rw [same, two] at one
    cases one
  · cases loaded

end StatusEffects
