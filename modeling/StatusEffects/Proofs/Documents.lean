import StatusEffects.Configuration
import StatusEffects.Proofs.Records

/-!
What a document adds to the rules of a game.

The entries of a document stand in one sequence: its defaults in the order of the stats, then its
effects as they are written. Registering the document adds a prefix of that sequence and changes
nothing else. The prefix is empty if the defaults cannot be taken from the document, it holds all
defaults and nothing more if the effects cannot be taken from it, and it ends before the first entry
of a name that is taken.
-/

set_option autoImplicit false

namespace StatusEffects

/-! ### Up to the first entry that is refused -/

section

variable {α β ε : Type}

/-- What holds of the empty list either holds of a whole list or is lost at one of its entries. -/
theorem holds_or_first {P : List α → Prop} (start : P []) (list : List α) :
    P list ∨ ∃ before entry after,
      list = before ++ entry :: after ∧ P before ∧ ¬P (before ++ [entry]) := by
  induction list using List.reverseRecOn with
  | nil => exact .inl start
  | append_singleton list entry ih =>
      rcases ih with holds | ⟨before, first, after, rfl, holds, lost⟩
      · by_cases still : P (list ++ [entry])
        · exact .inl still
        · exact .inr ⟨list, entry, [], rfl, holds, still⟩
      · exact .inr ⟨before, first, after ++ [entry], by simp, holds, lost⟩

/-- An entry of a list without repetitions does not stand before itself. -/
theorem key_notMem_before {key : α → β} {list before after : List α} {entry : α}
    (split : list = before ++ entry :: after) (distinct : (list.map key).Nodup) :
    key entry ∉ before.map key := by
  rw [split, List.map_append, List.map_cons] at distinct
  intro there
  exact (List.nodup_append.1 distinct).2.2 _ there _ (List.mem_cons_self ..) rfl

theorem mapM_ok {f : α → Except ε β} {list : List α} {values : List β}
    (each : List.Forall₂ (fun x y => f x = .ok y) list values) : list.mapM f = .ok values := by
  induction each with
  | nil => rfl
  | cons first _ ih =>
      rw [List.mapM_cons, first, ih]
      rfl

theorem mapM_error {f : α → Except ε β} {before after : List α} {entry : α} {e : ε}
    (each : ∀ x ∈ before, ∃ y, f x = .ok y) (fails : f entry = .error e) :
    (before ++ entry :: after).mapM f = .error e := by
  induction before with
  | nil =>
      rw [List.nil_append, List.mapM_cons, fails]
      rfl
  | cons first rest ih =>
      obtain ⟨y, reads⟩ := each first (List.mem_cons_self ..)
      rw [List.cons_append, List.mapM_cons, reads, ih fun x there => each x (.tail _ there)]
      rfl

theorem exists_values {f : α → Except ε β} {list : List α} (each : ∀ x ∈ list, ∃ y, f x = .ok y) :
    ∃ values, List.Forall₂ (fun x y => f x = .ok y) list values := by
  induction list with
  | nil => exact ⟨[], .nil⟩
  | cons first rest ih =>
      obtain ⟨y, reads⟩ := each first (List.mem_cons_self ..)
      obtain ⟨values, others⟩ := ih fun x there => each x (.tail _ there)
      exact ⟨y :: values, .cons reads others⟩

end

namespace StatDefaults

def Valid (entry : StatName × Float32) : Prop := entry.1 ≠ "" ∧ entry.2.isFinite = true

theorem checked_of_valid {entry : StatName × Float32} (valid : Valid entry) :
    checked entry = .ok entry := by
  unfold checked
  rw [if_neg valid.1, if_pos valid.2]
  rfl

theorem checked_unnamed {entry : StatName × Float32} (unnamed : entry.1 = "") :
    checked entry = .error (.invalid .emptyStatName) := by
  unfold checked
  rw [if_pos unnamed]
  rfl

theorem checked_unbounded {entry : StatName × Float32} (named : entry.1 ≠ "")
    (unbounded : entry.2.isFinite = false) :
    checked entry = .error (.invalid (.defaultNotFinite entry.1)) := by
  unfold checked
  rw [if_neg named, if_neg (Bool.eq_false_iff.1 unbounded)]
  rfl

variable {d : StatDefaults}

theorem entries_of_valid (valid : ∀ entry ∈ d.stats.entries, Valid entry) :
    d.entries = .ok d.stats.entries :=
  mapM_ok (List.forall₂_same.2 fun entry there => checked_of_valid (valid entry there))

theorem entries_of_fault {before after : List (StatName × Float32)} {entry : StatName × Float32}
    {e : ConfigError} (entries : d.stats.entries = before ++ entry :: after)
    (valid : ∀ other ∈ before, Valid other) (fault : checked entry = .error e) :
    d.entries = .error e := by
  unfold StatDefaults.entries
  rw [entries]
  exact mapM_error (fun other there => ⟨other, checked_of_valid (valid other there)⟩) fault

end StatDefaults

namespace Rulebook

variable {π : Type} {rules rules' : Rulebook π} {text : String}

/-! ### Rules that have grown -/

structure Gains (rules rules' : Rulebook π) (stats : List (StatName × Float32))
    (effects : List (EffectDefinition π)) : Prop where
  operators : rules'.operators = rules.operators
  conditionTypes : rules'.conditionTypes = rules.conditionTypes
  statRules : rules'.statRules = rules.statRules
  modifiedHooks : rules'.modifiedHooks = rules.modifiedHooks
  immunity : rules'.immunity = rules.immunity
  defaults : rules'.defaults.entries.Perm (rules.defaults.entries ++ stats)
  effects : rules'.effects.entries.Perm
    (rules.effects.entries ++ effects.map fun d => (d.effect, d))

namespace Gains

variable {stats stats' : List (StatName × Float32)} {effects effects' : List (EffectDefinition π)}

theorem refl (rules : Rulebook π) : Gains rules rules [] [] where
  operators := rfl
  conditionTypes := rfl
  statRules := rfl
  modifiedHooks := rfl
  immunity := rfl
  defaults := by rw [List.append_nil]
  effects := by rw [List.map_nil, List.append_nil]

theorem trans {rules'' : Rulebook π} (first : Gains rules rules' stats effects)
    (second : Gains rules' rules'' stats' effects') :
    Gains rules rules'' (stats ++ stats') (effects ++ effects') where
  operators := second.operators.trans first.operators
  conditionTypes := second.conditionTypes.trans first.conditionTypes
  statRules := second.statRules.trans first.statRules
  modifiedHooks := second.modifiedHooks.trans first.modifiedHooks
  immunity := second.immunity.trans first.immunity
  defaults := by
    rw [← List.append_assoc]
    exact second.defaults.trans (first.defaults.append_right _)
  effects := by
    rw [List.map_append, ← List.append_assoc]
    exact second.effects.trans (first.effects.append_right _)

/-- A default that was registered stays as it was. -/
theorem default_kept (gains : Gains rules rules' stats effects) {stat : StatName}
    {default : Float32} (registered : rules.defaults.get? stat = some default) :
    rules'.defaults.get? stat = some default := by
  have there : (stat, default) ∈ rules.defaults.entries := Table.mem_entries_iff.2 registered
  exact Table.mem_entries_iff.1 (gains.defaults.mem_iff.2 (List.mem_append_left _ there))

/-- An effect that was registered stays as it was. -/
theorem effect_kept (gains : Gains rules rules' stats effects) {effect : EffectName}
    {d : EffectDefinition π} (registered : rules.effects.get? effect = some d) :
    rules'.effects.get? effect = some d := by
  have there : (effect, d) ∈ rules.effects.entries := Table.mem_entries_iff.2 registered
  exact Table.mem_entries_iff.1 (gains.effects.mem_iff.2 (List.mem_append_left _ there))

theorem contains_default (gains : Gains rules rules' stats effects) {stat : StatName} :
    rules'.defaults.contains stat = true ↔
      rules.defaults.contains stat = true ∨ stat ∈ stats.map Prod.fst := by
  rw [← Table.mem_keys, ← Table.mem_keys, Table.keys, (gains.defaults.map Prod.fst).mem_iff,
    List.map_append, List.mem_append]
  rfl

theorem contains_effect (gains : Gains rules rules' stats effects) {effect : EffectName} :
    rules'.effects.contains effect = true ↔
      rules.effects.contains effect = true ∨ effect ∈ effects.map (·.effect) := by
  rw [← Table.mem_keys, ← Table.mem_keys, Table.keys, (gains.effects.map Prod.fst).mem_iff,
    List.map_append, List.mem_append, List.map_map]
  rfl

end Gains

/-! ### One entry -/

theorem registerStat_new {entry : StatName × Float32}
    (new : rules.defaults.contains entry.1 = false) :
    ∃ rules', rules.registerStat entry.1 entry.2 = .ok rules' ∧ Gains rules rules' [entry] [] := by
  refine ⟨_, if_neg (Bool.eq_false_iff.1 new), { Gains.refl rules with defaults := ?_ }⟩
  exact (Table.insertEntry_perm (Table.key_notMem new)).trans (List.perm_append_singleton ..).symm

theorem registerEffect_new {d : EffectDefinition π}
    (new : rules.effects.contains d.effect = false) :
    ∃ rules', rules.registerEffect d = .ok rules' ∧ Gains rules rules' [] [d] := by
  refine ⟨_, if_neg (Bool.eq_false_iff.1 new), { Gains.refl rules with effects := ?_ }⟩
  exact (Table.insertEntry_perm (Table.key_notMem new)).trans (List.perm_append_singleton ..).symm

/-! ### Entry by entry -/

/-- Entries that are accepted one after another are registered before what follows them. -/
theorem registerEach_append {α : Type}
    {register : Rulebook π → α → Except ConfigError (Rulebook π)}
    (Gained : List α → Rulebook π → Prop) (start : Gained [] rules) {list : List α}
    (step : ∀ done entry left rules', list = done ++ entry :: left → Gained done rules' →
      ∃ rules'', register rules' entry = .ok rules'' ∧ Gained (done ++ [entry]) rules'')
    (rest : List α) :
    ∃ rules', Gained list rules' ∧
      registerEach register rules (list ++ rest) = registerEach register rules' rest := by
  induction list using List.reverseRecOn generalizing rest with
  | nil => exact ⟨rules, start, rfl⟩
  | append_singleton list entry ih =>
      obtain ⟨rules', gained, runs⟩ := ih
        (fun done other left rules' split gained =>
          step done other (left ++ [entry]) rules' (by rw [split]; simp) gained)
        (entry :: rest)
      obtain ⟨rules'', accepts, more⟩ := step list entry [] rules' rfl gained
      refine ⟨rules'', more, ?_⟩
      rw [List.append_assoc, List.singleton_append, runs, registerEach, accepts]

def AdmitsStats (rules : Rulebook π) (stats : List (StatName × Float32)) : Prop :=
  ∀ entry ∈ stats, rules.defaults.contains entry.1 = false

def AdmitsEffects (rules : Rulebook π) (effects : List (EffectDefinition π)) : Prop :=
  (∀ d ∈ effects, rules.effects.contains d.effect = false) ∧ (effects.map (·.effect)).Nodup

theorem registerEach_stats {stats : List (StatName × Float32)} (admits : rules.AdmitsStats stats)
    (distinct : (stats.map Prod.fst).Nodup) (rest : List (StatName × Float32)) :
    ∃ rules', Gains rules rules' stats [] ∧
      registerEach (fun rules entry => rules.registerStat entry.1 entry.2) rules (stats ++ rest) =
        registerEach (fun rules entry => rules.registerStat entry.1 entry.2) rules' rest := by
  refine registerEach_append (fun done rules' => Gains rules rules' done [])
    (Gains.refl rules) (fun done entry left rules' split gains => ?_) rest
  have member : entry ∈ stats := by
    rw [split]
    exact List.mem_append_right _ (List.mem_cons_self ..)
  have new : rules'.defaults.contains entry.1 = false := by
    rw [Bool.eq_false_iff, ne_eq, gains.contains_default, not_or]
    exact ⟨Bool.eq_false_iff.1 (admits entry member), key_notMem_before split distinct⟩
  obtain ⟨rules'', accepts, more⟩ := registerStat_new new
  exact ⟨rules'', accepts, gains.trans more⟩

theorem registerEach_effects {effects : List (EffectDefinition π)}
    (admits : rules.AdmitsEffects effects) (rest : List (EffectDefinition π)) :
    ∃ rules', Gains rules rules' [] effects ∧
      registerEach registerEffect rules (effects ++ rest) =
        registerEach registerEffect rules' rest := by
  refine registerEach_append (fun done rules' => Gains rules rules' [] done)
    (Gains.refl rules) (fun done d left rules' split gains => ?_) rest
  have member : d ∈ effects := by
    rw [split]
    exact List.mem_append_right _ (List.mem_cons_self ..)
  have new : rules'.effects.contains d.effect = false := by
    rw [Bool.eq_false_iff, ne_eq, gains.contains_effect, not_or]
    exact ⟨Bool.eq_false_iff.1 (admits.1 d member), key_notMem_before split admits.2⟩
  obtain ⟨rules'', accepts, more⟩ := registerEffect_new new
  exact ⟨rules'', accepts, gains.trans more⟩

/-! ### Whole documents -/

/-- Which defaults of a document are added to the rules, in the order of the stats, and the error
that ends this. -/
inductive AddsStats (rules : Rulebook π) (text : String) :
    List (StatName × Float32) → Option ConfigError → Prop where
  /-- The stats of the document do not decode. -/
  | undecoded {e : ConfigError} (undecodable : decodeDocument StatDefaults.ofSource text = .error e) :
      AddsStats rules text [] (some e)
  /-- A stat has no name; the stats before it are valid. -/
  | unnamed {d : StatDefaults} {before after : List (StatName × Float32)}
      {entry : StatName × Float32} (decodes : decodeDocument StatDefaults.ofSource text = .ok d)
      (entries : d.stats.entries = before ++ entry :: after)
      (valid : ∀ other ∈ before, StatDefaults.Valid other) (unnamed : entry.1 = "") :
      AddsStats rules text [] (some (.invalid .emptyStatName))
  /-- A default is not finite; the stats before it are valid. -/
  | unbounded {d : StatDefaults} {before after : List (StatName × Float32)}
      {entry : StatName × Float32} (decodes : decodeDocument StatDefaults.ofSource text = .ok d)
      (entries : d.stats.entries = before ++ entry :: after)
      (valid : ∀ other ∈ before, StatDefaults.Valid other) (named : entry.1 ≠ "")
      (unbounded : entry.2.isFinite = false) :
      AddsStats rules text [] (some (.invalid (.defaultNotFinite entry.1)))
  /-- All stats are valid and one of them is registered; the stats before it are not. -/
  | taken {d : StatDefaults} {before after : List (StatName × Float32)}
      {entry : StatName × Float32} (decodes : decodeDocument StatDefaults.ofSource text = .ok d)
      (entries : d.stats.entries = before ++ entry :: after)
      (valid : ∀ other ∈ d.stats.entries, StatDefaults.Valid other)
      (new : rules.AdmitsStats before) (taken : rules.defaults.contains entry.1 = true) :
      AddsStats rules text before (some (.duplicateStat entry.1))
  /-- All stats are valid and none of them is registered. -/
  | all {d : StatDefaults} (decodes : decodeDocument StatDefaults.ofSource text = .ok d)
      (valid : ∀ other ∈ d.stats.entries, StatDefaults.Valid other)
      (new : rules.AdmitsStats d.stats.entries) : AddsStats rules text d.stats.entries none

/-- Which effects of a document are added to the rules, in the order of the document, and the error
that ends this. -/
inductive AddsEffects (rules : Rulebook π) (text : String) :
    List (EffectDefinition π) → Option ConfigError → Prop where
  /-- The effects of the document do not decode. -/
  | undecoded {e : ConfigError}
      (undecodable : decodeDocument EffectForm.ofDocument text = .error e) :
      AddsEffects rules text [] (some e)
  /-- An effect cannot be built; the effects before it can. -/
  | unbuilt {forms before after : List EffectForm} {form : EffectForm} {e : ConfigError}
      (decodes : decodeDocument EffectForm.ofDocument text = .ok forms)
      (split : forms = before ++ form :: after)
      (built : ∀ other ∈ before, ∃ d, other.build rules.conditionTypes = .ok d)
      (unbuilt : form.build rules.conditionTypes = .error e) : AddsEffects rules text [] (some e)
  /-- All effects can be built and one of them is registered or has the name of one before it; the
  effects before it are new. -/
  | taken {forms : List EffectForm} {before after : List (EffectDefinition π)}
      {d : EffectDefinition π} (decodes : decodeDocument EffectForm.ofDocument text = .ok forms)
      (built : List.Forall₂ (fun form d => form.build rules.conditionTypes = .ok d) forms
        (before ++ d :: after))
      (new : rules.AdmitsEffects before)
      (taken : rules.effects.contains d.effect = true ∨ d.effect ∈ before.map (·.effect)) :
      AddsEffects rules text before (some (.duplicateEffect d.effect))
  /-- All effects can be built and are new. -/
  | all {forms : List EffectForm} {effects : List (EffectDefinition π)}
      (decodes : decodeDocument EffectForm.ofDocument text = .ok forms)
      (built : List.Forall₂ (fun form d => form.build rules.conditionTypes = .ok d) forms effects)
      (new : rules.AdmitsEffects effects) : AddsEffects rules text effects none

/-- What a document adds to the rules, and the error that ends this: no effect is looked at unless
all defaults were added. -/
inductive Adds (rules : Rulebook π) (text : String) :
    List (StatName × Float32) → List (EffectDefinition π) → Option ConfigError → Prop where
  | stats {stats : List (StatName × Float32)} {e : ConfigError}
      (adds : rules.AddsStats text stats (some e)) : Adds rules text stats [] (some e)
  | effects {stats : List (StatName × Float32)} {effects : List (EffectDefinition π)}
      {error : Option ConfigError} (before : rules.AddsStats text stats none)
      (adds : rules.AddsEffects text effects error) : Adds rules text stats effects error

theorem exists_addsStats (rules : Rulebook π) (text : String) :
    ∃ stats error, rules.AddsStats text stats error := by
  cases decodes : decodeDocument StatDefaults.ofSource text with
  | error e => exact ⟨_, _, .undecoded decodes⟩
  | ok d =>
      rcases holds_or_first (P := fun list => ∀ entry ∈ list, StatDefaults.Valid entry) nofun
        d.stats.entries with valid | ⟨before, entry, after, split, valid, fault⟩
      · rcases holds_or_first (P := rules.AdmitsStats) nofun d.stats.entries with
          new | ⟨before, entry, after, split, new, taken⟩
        · exact ⟨_, _, .all decodes valid new⟩
        · refine ⟨_, _, .taken decodes split valid new ?_⟩
          by_contra free
          rw [Bool.not_eq_true] at free
          exact taken (List.forall_mem_append.2 ⟨new, List.forall_mem_singleton.2 free⟩)
      · have invalid : ¬StatDefaults.Valid entry := fun here =>
          fault (List.forall_mem_append.2 ⟨valid, List.forall_mem_singleton.2 here⟩)
        by_cases unnamed : entry.1 = ""
        · exact ⟨_, _, .unnamed decodes split valid unnamed⟩
        · refine ⟨_, _, .unbounded decodes split valid unnamed ?_⟩
          exact Bool.eq_false_iff.2 fun finite => invalid ⟨unnamed, finite⟩

theorem exists_addsEffects (rules : Rulebook π) (text : String) :
    ∃ effects error, rules.AddsEffects text effects error := by
  cases decodes : decodeDocument EffectForm.ofDocument text with
  | error e => exact ⟨_, _, .undecoded decodes⟩
  | ok forms =>
      let Built (form : EffectForm) : Prop := ∃ d, form.build rules.conditionTypes = .ok d
      rcases holds_or_first (P := fun list => ∀ form ∈ list, Built form) nofun forms with
        built | ⟨before, form, after, split, built, fault⟩
      · obtain ⟨effects, builds⟩ := exists_values built
        rcases holds_or_first (P := rules.AdmitsEffects) ⟨nofun, .nil⟩ effects with
          new | ⟨before, d, after, rfl, new, taken⟩
        · exact ⟨_, _, .all decodes builds new⟩
        · refine ⟨_, _, .taken decodes builds new ?_⟩
          by_contra free
          rw [not_or, Bool.not_eq_true] at free
          refine taken ⟨List.forall_mem_append.2 ⟨new.1, List.forall_mem_singleton.2 free.1⟩, ?_⟩
          rw [List.map_append, List.map_singleton]
          exact new.2.append (List.nodup_singleton _) (List.disjoint_singleton.2 free.2)
      · cases builds : form.build rules.conditionTypes with
        | error e => exact ⟨_, _, .unbuilt decodes split built builds⟩
        | ok d =>
            exact absurd (List.forall_mem_append.2 ⟨built, List.forall_mem_singleton.2 ⟨d, builds⟩⟩)
              fault

theorem exists_adds (rules : Rulebook π) (text : String) :
    ∃ stats effects error, rules.Adds text stats effects error := by
  obtain ⟨stats, error, adds⟩ := exists_addsStats rules text
  cases error with
  | some e => exact ⟨_, _, _, .stats adds⟩
  | none =>
      obtain ⟨effects, error, more⟩ := exists_addsEffects rules text
      exact ⟨_, _, _, .effects adds more⟩

/-! ### What is read of a document -/

/-- Either the defaults of the document are refused as a whole, or those that are added are followed
by nothing or by one that is registered. -/
theorem AddsStats.reading {stats : List (StatName × Float32)} {error : Option ConfigError}
    (adds : rules.AddsStats text stats error) :
    (∃ e, StatDefaults.ofDocument text = .error e ∧ stats = [] ∧ error = some e) ∨
    ∃ rest, StatDefaults.ofDocument text = .ok (stats ++ rest) ∧
      ((stats ++ rest).map Prod.fst).Nodup ∧ rules.AdmitsStats stats ∧
      (rest = [] ∧ error = none ∨ ∃ entry after, rest = entry :: after ∧
        rules.defaults.contains entry.1 = true ∧ error = some (.duplicateStat entry.1)) := by
  cases adds with
  | undecoded undecodable =>
      refine .inl ⟨_, ?_, rfl, rfl⟩
      rw [StatDefaults.ofDocument, undecodable]
      rfl
  | unnamed decodes entries valid unnamed =>
      refine .inl ⟨_, ?_, rfl, rfl⟩
      rw [StatDefaults.ofDocument, decodes]
      exact StatDefaults.entries_of_fault entries valid (StatDefaults.checked_unnamed unnamed)
  | unbounded decodes entries valid named unbounded =>
      refine .inl ⟨_, ?_, rfl, rfl⟩
      rw [StatDefaults.ofDocument, decodes]
      exact StatDefaults.entries_of_fault entries valid
        (StatDefaults.checked_unbounded named unbounded)
  | @taken d _ after entry decodes entries valid new taken =>
      refine .inr ⟨entry :: after, ?_, ?_, new, .inr ⟨entry, after, rfl, taken, rfl⟩⟩
      · rw [StatDefaults.ofDocument, decodes, ← entries]
        exact StatDefaults.entries_of_valid valid
      · rw [← entries]
        exact d.stats.nodup_keys
  | @all d decodes valid new =>
      refine .inr ⟨[], ?_, ?_, new, .inl ⟨rfl, rfl⟩⟩
      · rw [StatDefaults.ofDocument, decodes, List.append_nil]
        exact StatDefaults.entries_of_valid valid
      · rw [List.append_nil]
        exact d.stats.nodup_keys

/-- Either the effects of the document are refused as a whole, or those that are added are followed
by nothing or by one whose name is taken. -/
theorem AddsEffects.reading {effects : List (EffectDefinition π)} {error : Option ConfigError}
    (adds : rules.AddsEffects text effects error) :
    (∃ e, EffectDefinition.ofDocument rules.conditionTypes text = .error e ∧ effects = [] ∧
      error = some e) ∨
    ∃ rest, EffectDefinition.ofDocument rules.conditionTypes text = .ok (effects ++ rest) ∧
      rules.AdmitsEffects effects ∧
      (rest = [] ∧ error = none ∨ ∃ d after, rest = d :: after ∧
        (rules.effects.contains d.effect = true ∨ d.effect ∈ effects.map (·.effect)) ∧
        error = some (.duplicateEffect d.effect)) := by
  cases adds with
  | undecoded undecodable =>
      refine .inl ⟨_, ?_, rfl, rfl⟩
      rw [EffectDefinition.ofDocument, undecodable]
      rfl
  | unbuilt decodes split built unbuilt =>
      refine .inl ⟨_, ?_, rfl, rfl⟩
      rw [EffectDefinition.ofDocument, decodes, split]
      exact mapM_error built unbuilt
  | @taken forms _ after d decodes built new taken =>
      refine .inr ⟨d :: after, ?_, new, .inr ⟨d, after, rfl, taken, rfl⟩⟩
      rw [EffectDefinition.ofDocument, decodes]
      exact mapM_ok built
  | all decodes built new =>
      refine .inr ⟨[], ?_, new, .inl ⟨rfl, rfl⟩⟩
      rw [EffectDefinition.ofDocument, decodes, List.append_nil]
      exact mapM_ok built

/-- The entries of a document in the order in which they are registered; there are none of a kind
that cannot be taken from it. -/
def entriesOf (rules : Rulebook π) (text : String) :
    List ((StatName × Float32) ⊕ EffectDefinition π) :=
  match StatDefaults.ofDocument text with
  | .error _ => []
  | .ok stats =>
    stats.map .inl ++
      match EffectDefinition.ofDocument rules.conditionTypes text with
      | .error _ => []
      | .ok effects => effects.map .inr

/-- What is added stands at the front of the document, and is all of it if there is no error. -/
theorem Adds.entriesOf {stats : List (StatName × Float32)} {effects : List (EffectDefinition π)}
    {error : Option ConfigError} (adds : rules.Adds text stats effects error) :
    stats.map .inl ++ effects.map .inr <+: rules.entriesOf text ∧
      (error = none → rules.entriesOf text = stats.map .inl ++ effects.map .inr) := by
  unfold Rulebook.entriesOf
  cases adds with
  | stats adds =>
      refine ⟨?_, nofun⟩
      rw [List.map_nil, List.append_nil]
      rcases adds.reading with ⟨e, refused, rfl, -⟩ | ⟨rest, read, -, -, -⟩
      · exact List.nil_prefix
      · rw [read]
        dsimp only
        rw [List.map_append, List.append_assoc]
        exact List.prefix_append _ _
  | effects before adds =>
      rcases before.reading with ⟨e, -, -, fails⟩ | ⟨rest, read, -, -, ⟨rfl, -⟩ | ⟨_, _, _, _, fails⟩⟩
      · cases fails
      · rw [read, List.append_nil]
        dsimp only
        rcases adds.reading with ⟨e, refused, rfl, rfl⟩ | ⟨rest, built, -, ending⟩
        · rw [refused]
          exact ⟨List.prefix_rfl, nofun⟩
        · rw [built]
          dsimp only
          rw [List.prefix_append_right_inj, List.map_append]
          refine ⟨List.prefix_append _ _, fun whole => ?_⟩
          rcases ending with ⟨rfl, -⟩ | ⟨_, _, _, _, fails⟩
          · rw [List.map_nil, List.append_nil]
          · cases whole.symm.trans fails
      · cases fails

/-! ### What registering does -/

theorem AddsStats.registers {stats : List (StatName × Float32)} {error : Option ConfigError}
    (adds : rules.AddsStats text stats error) :
    (rules.registerDefaults text).2 = error ∧
      Gains rules (rules.registerDefaults text).1 stats [] := by
  unfold registerDefaults
  rcases adds.reading with ⟨e, refused, rfl, rfl⟩ | ⟨rest, read, distinct, new, ending⟩
  · rw [refused]
    exact ⟨rfl, .refl rules⟩
  · rw [List.map_append] at distinct
    obtain ⟨rules', gains, runs⟩ := registerEach_stats new (List.nodup_append.1 distinct).1 rest
    rw [read]
    dsimp only
    rw [runs]
    rcases ending with ⟨rfl, rfl⟩ | ⟨entry, after, rfl, taken, rfl⟩
    · exact ⟨rfl, gains⟩
    · have refuses : rules'.registerStat entry.1 entry.2 = .error (.duplicateStat entry.1) :=
        if_pos (gains.contains_default.2 (.inl taken))
      rw [registerEach, refuses]
      exact ⟨rfl, gains⟩

theorem AddsEffects.registers {effects : List (EffectDefinition π)} {error : Option ConfigError}
    (adds : rules.AddsEffects text effects error) :
    (rules.registerEffects text).2 = error ∧
      Gains rules (rules.registerEffects text).1 [] effects := by
  unfold registerEffects
  rcases adds.reading with ⟨e, refused, rfl, rfl⟩ | ⟨rest, read, new, ending⟩
  · rw [refused]
    exact ⟨rfl, .refl rules⟩
  · obtain ⟨rules', gains, runs⟩ := registerEach_effects new rest
    rw [read]
    dsimp only
    rw [runs]
    rcases ending with ⟨rfl, rfl⟩ | ⟨d, after, rfl, taken, rfl⟩
    · exact ⟨rfl, gains⟩
    · have refuses : rules'.registerEffect d = .error (.duplicateEffect d.effect) :=
        if_pos (gains.contains_effect.2 taken)
      rw [registerEach, refuses]
      exact ⟨rfl, gains⟩

/-- The effects that are added are the same after defaults have been added. -/
theorem AddsEffects.of_gains {stats : List (StatName × Float32)}
    {effects : List (EffectDefinition π)} {error : Option ConfigError}
    (gains : Gains rules rules' stats []) (adds : rules.AddsEffects text effects error) :
    rules'.AddsEffects text effects error := by
  have types := gains.conditionTypes
  have known (effect : EffectName) :
      rules'.effects.contains effect = rules.effects.contains effect :=
    Bool.eq_iff_iff.2 (gains.contains_effect.trans (or_iff_left List.not_mem_nil))
  have admits (list : List (EffectDefinition π)) (new : rules.AdmitsEffects list) :
      rules'.AdmitsEffects list := ⟨fun d there => (known _).trans (new.1 d there), new.2⟩
  cases adds with
  | undecoded undecodable => exact .undecoded undecodable
  | unbuilt decodes split built unbuilt =>
      exact .unbuilt decodes split (types ▸ built) (types ▸ unbuilt)
  | taken decodes built new taken =>
      exact .taken decodes (types ▸ built) (admits _ new) (taken.imp_left (known _).trans)
  | all decodes built new => exact .all decodes (types ▸ built) (admits _ new)

theorem Adds.registers {stats : List (StatName × Float32)} {effects : List (EffectDefinition π)}
    {error : Option ConfigError} (adds : rules.Adds text stats effects error) :
    (rules.registerDocument text).2 = error ∧
      Gains rules (rules.registerDocument text).1 stats effects := by
  cases adds with
  | @stats e adds =>
      obtain ⟨ends, gains⟩ := adds.registers
      have run : rules.registerDocument text = ((rules.registerDefaults text).1, some e) := by
        rw [registerDocument, ← Prod.mk.eta (p := rules.registerDefaults text), ends]
      rw [run]
      exact ⟨rfl, gains⟩
  | effects before adds =>
      obtain ⟨goesOn, gains⟩ := before.registers
      have run : rules.registerDocument text =
          (rules.registerDefaults text).1.registerEffects text := by
        rw [registerDocument, ← Prod.mk.eta (p := rules.registerDefaults text), goesOn]
      obtain ⟨ends, more⟩ := (adds.of_gains gains).registers
      rw [run]
      refine ⟨ends, ?_⟩
      simpa only [List.append_nil, List.nil_append] using gains.trans more

/-- Registering a document changes nothing that is registered, and it adds the entries at the front
of the document up to the first one that is refused: which ones those are is one of the listed cases,
and whichever case it is, those entries are added and the error is the one of that case. -/
theorem document_adds_in_order (rules : Rulebook π) (text : String) :
    (∀ stat default, rules.defaults.get? stat = some default →
      (rules.registerDocument text).1.defaults.get? stat = some default) ∧
    (∀ effect d, rules.effects.get? effect = some d →
      (rules.registerDocument text).1.effects.get? effect = some d) ∧
    (∃ stats effects error, rules.Adds text stats effects error) ∧
    ∀ stats effects error, rules.Adds text stats effects error →
      (rules.registerDocument text).2 = error ∧
      Gains rules (rules.registerDocument text).1 stats effects ∧
      stats.map .inl ++ effects.map .inr <+: rules.entriesOf text ∧
      (error = none → rules.entriesOf text = stats.map .inl ++ effects.map .inr) := by
  obtain ⟨stats, effects, error, adds⟩ := exists_adds rules text
  have gains := adds.registers.2
  refine ⟨fun _ _ registered => gains.default_kept registered,
    fun _ _ registered => gains.effect_kept registered, ⟨stats, effects, error, adds⟩, ?_⟩
  intro stats effects error adds
  exact ⟨adds.registers.1, adds.registers.2, adds.entriesOf⟩

def attributes : String := "[stats]\nspeed = 3\nhealth = 100.0\nmana = 40\n"

/-- A registered default keeps its value, and of the stats around it only the first is added. -/
theorem mana_keeps_its_default : ∃ rules : Rulebook Unit,
    builtin.registerStat "mana" 7 = .ok rules ∧
    (rules.registerDocument attributes).2 = some (.duplicateStat "mana") ∧
    Gains rules (rules.registerDocument attributes).1 [("health", 100)] [] ∧
    (rules.registerDocument attributes).1.defaults.get? "mana" = some 7 := by
  have new : (builtin : Rulebook Unit).defaults.contains ("mana", (7 : Float32)).1 = false := rfl
  obtain ⟨rules, registered, -⟩ := registerStat_new new
  obtain ⟨keeps, -, -, outcome⟩ := document_adds_in_order rules attributes
  have mana : rules.defaults.get? "mana" = some 7 := by
    cases registered
    rfl
  have health : rules.defaults.contains "health" = false := by
    cases registered
    rfl
  have read : (decodeDocument StatDefaults.ofSource attributes).toOption.map (·.stats.entries) =
      some [("health", 100), ("mana", 40), ("speed", 3)] := by
    decide +kernel
  obtain ⟨d, decodes, entries⟩ : ∃ d, decodeDocument StatDefaults.ofSource attributes = .ok d ∧
      d.stats.entries = [("health", 100)] ++ ("mana", 40) :: [("speed", 3)] := by
    cases decodes : decodeDocument StatDefaults.ofSource attributes with
    | error e =>
        rw [decodes] at read
        cases read
    | ok d =>
        rw [decodes] at read
        exact ⟨d, rfl, Option.some.inj read⟩
  have valid : ∀ entry ∈ d.stats.entries, StatDefaults.Valid entry := by
    rw [entries]
    unfold StatDefaults.Valid
    decide +kernel
  have adds := AddsStats.taken decodes entries valid (List.forall_mem_singleton.2 health)
    (by rw [Table.contains, mana]; rfl)
  obtain ⟨ends, gains, -⟩ := outcome _ _ _ (.stats adds)
  exact ⟨rules, registered, ends, gains, keeps "mana" 7 mana⟩

end Rulebook

end StatusEffects
