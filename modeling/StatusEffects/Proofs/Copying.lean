import StatusEffects.Proofs.Arrangement
import StatusEffects.Proofs.Handles
import StatusEffects.Proofs.Loading
import StatusEffects.Proofs.Sorting
import StatusEffects.Scenario.Stage

/-!
Modifiers that are copied from another entity.

The lists of the other entity may be gone through in any order, and each of their modifiers goes to
its place among those that are there already. The modifiers of one stat come in the order of their
list all the same, so the copying is a stable merge: for each stat what was there before is followed
by the copies, and the whole is sorted by the operators of the entity that copies.
-/

set_option autoImplicit false

namespace StatusEffects

variable {π : Type}

/-! ### What is copied -/

namespace Modifier

/-- What a copy has in common with its original. -/
def traits (m : Modifier π) : Modifier π :=
  { m with duration := .absent, id := 0, active := false, attached := false }

@[simp] theorem traits_op (m : Modifier π) : m.traits.op = m.op := rfl

/-- Whether a modifier is copied: no effect applies it, and it has the source that is asked for. -/
def isOffered (source : Option SourceTag) (m : Modifier π) : Bool :=
  !m.source.any SourceTag.isOfEffect && source.all fun s => m.source = some s

def copy (m : Modifier π) (id : Handle) : Modifier π :=
  { m with duration := .absent, id := id, active := true, attached := true }

def copies (next : Handle) : List (Modifier π) → List (Modifier π)
  | [] => []
  | m :: rest => m.copy next :: copies (next + 1) rest

theorem ids_copies (next : Handle) (list : List (Modifier π)) :
    (copies next list).map Modifier.id = List.range' next list.length := by
  induction list generalizing next with
  | nil => rfl
  | cons m rest ih =>
      rw [copies, List.map_cons, ih]
      rfl

theorem traits_copies (next : Handle) (list : List (Modifier π)) :
    (copies next list).map traits = list.map traits := by
  induction list generalizing next with
  | nil => rfl
  | cons m rest ih =>
      rw [copies, List.map_cons, ih]
      rfl

/-- The copies for a stat have what the originals for that stat have. -/
theorem traits_filter_copies (next : Handle) (list : List (Modifier π)) (stat : StatName) :
    ((copies next list).filter fun m => m.stat = stat).map traits =
      (list.filter fun m => m.stat = stat).map traits := by
  have swapped (list : List (Modifier π)) : (list.filter fun m => m.stat = stat).map traits =
      (list.map traits).filter fun m => m.stat = stat := by
    rw [List.filter_map]
    rfl
  rw [swapped, swapped, traits_copies]

end Modifier

/-! ### Lists in any order -/

/-- However the entries of a table are arranged, a key has the same place in none or one of them. -/
theorem Table.filter_key_of_perm {β : Type} {t : Table β} {order : List (String × β)}
    (perm : order.Perm t.entries) (key : String) :
    order.filter (fun entry => entry.1 = key) = t.entries.filter fun entry => entry.1 = key := by
  have moved := perm.filter fun entry => entry.1 = key
  have distinct := t.nodup_keys.sublist
    ((List.filter_sublist (p := fun entry => entry.1 = key)).map Prod.fst)
  have own : ∀ entry ∈ t.entries.filter (fun entry => entry.1 = key), entry.1 = key :=
    fun entry there => of_decide_eq_true (List.mem_filter.1 there).2
  generalize t.entries.filter (fun entry => entry.1 = key) = found at moved distinct own
  cases found with
  | nil => exact moved.eq_nil
  | cons first rest =>
      cases rest with
      | nil => exact List.perm_singleton.1 moved
      | cons second rest =>
          have same : first.1 = second.1 :=
            (own first (by simp)).trans (own second (by simp)).symm
          rw [List.map_cons, List.map_cons, same] at distinct
          exact absurd (List.mem_cons_self ..) (List.nodup_cons.1 distinct).1

namespace ModifierLists

/-- The modifiers that are copied, in the order in which the lists are gone through. -/
def offered (source : Option SourceTag) (order : List (StatName × List (Modifier π))) :
    List (Modifier π) :=
  (order.map Prod.snd).flatten.filter (Modifier.isOffered source)

variable {l : ModifierLists π} {order : List (StatName × List (Modifier π))}

/-- The modifiers of a source that no effect applies, as the lists stand. -/
theorem filter_ofSource (l : ModifierLists π) (source : Option SourceTag) :
    (l.ofSource source).filter (fun m => !m.source.any SourceTag.isOfEffect) =
      offered source l.lists.entries :=
  List.filter_filter

theorem filter_flatten_of_filed
    (filed : ∀ entry ∈ order, ∀ m ∈ entry.2, m.stat = entry.1) (stat : StatName) :
    (order.map Prod.snd).flatten.filter (fun m => m.stat = stat) =
      ((order.filter fun entry => entry.1 = stat).map Prod.snd).flatten := by
  induction order with
  | nil => rfl
  | cons entry rest ih =>
      have own := filed entry (List.mem_cons_self ..)
      rw [List.map_cons, List.flatten_cons, List.filter_append,
        ih fun other there => filed other (List.mem_cons_of_mem _ there), List.filter_cons]
      by_cases here : entry.1 = stat
      · rw [if_pos (decide_eq_true here), List.map_cons, List.flatten_cons, List.filter_eq_self.2]
        exact fun m there => decide_eq_true ((own m there).trans here)
      · rw [if_neg (by simpa using here), List.filter_eq_nil_iff.2, List.nil_append]
        intro m there
        rw [decide_eq_true_eq, own m there]
        exact here

/-- What is copied for a stat comes in the order of its list, however the lists are gone through. -/
theorem filter_offered (filed : ∀ stat, ∀ m ∈ l.get stat, m.stat = stat)
    (perm : order.Perm l.lists.entries) (source : Option SourceTag) (stat : StatName) :
    (offered source order).filter (fun m => m.stat = stat) =
      (l.get stat).filter (Modifier.isOffered source) := by
  have within : ∀ entry ∈ l.lists.entries, ∀ m ∈ entry.2, m.stat = entry.1 := by
    intro entry there m member
    refine filed entry.1 m ?_
    rw [get, Table.mem_entries_iff.1 there]
    exact member
  have moved : ∀ entry ∈ order, ∀ m ∈ entry.2, m.stat = entry.1 :=
    fun entry there => within entry (perm.mem_iff.1 there)
  have whole : (order.map Prod.snd).flatten.filter (fun m => m.stat = stat) = l.get stat := by
    rw [filter_flatten_of_filed moved, Table.filter_key_of_perm perm,
      ← filter_flatten_of_filed within]
    exact filter_toList filed stat
  rw [offered, List.filter_comm, whole]

theorem length_offered (perm : order.Perm l.lists.entries) (source : Option SourceTag) :
    (offered source order).length = l.toList.countP (Modifier.isOffered source) := by
  rw [List.countP_eq_length_filter]
  exact ((perm.map Prod.snd).flatten.filter _).length_eq

end ModifierLists

/-! ### Merging -/

namespace OperatorTable

variable {operators : OperatorTable}

theorem sorted_append_sorted (first second : List (Modifier π)) :
    operators.sorted (operators.sorted first ++ second) = operators.sorted (first ++ second) := by
  refine (ranked_sorted _).eq_sorted fun rank => ?_
  rw [level_sorted, level, List.filter_append, level, List.filter_append]
  exact congrArg (· ++ _) (level_sorted rank first)

/-- Only the operators count for the sorting. -/
theorem map_sorted {f : Modifier π → Modifier π} (same : ∀ m, (f m).op = m.op)
    (list : List (Modifier π)) :
    (operators.sorted list).map f = operators.sorted (list.map f) := by
  refine List.map_mergeSort fun a _ b _ => ?_
  unfold notAfter
  rw [same, same]

end OperatorTable

namespace Entity

def Treeless (e : Entity π) : Prop := ∀ owner c gate, e.Bears owner c gate → c = .absent

theorem treeless_iff {e : Entity π} : e.Treeless ↔
    (∀ m ∈ e.modifiers.toList, m.duration = .absent) ∧
    ∀ live ∈ e.effects.values,
      (∀ s ∈ live.held, s.duration = .absent) ∧ ∀ c ∈ live.conditions, c = .absent := by
  constructor
  · intro treeless
    refine ⟨fun m listed => ?_, fun live listed => ?_⟩
    · obtain ⟨stat, there⟩ := ModifierLists.mem_toList.1 listed
      exact treeless _ _ _ (.modifier there)
    · obtain ⟨effect, found⟩ := Table.mem_values.1 listed
      refine ⟨fun s held => treeless _ _ _ (.stack found held), fun c there => ?_⟩
      obtain ⟨index, here⟩ := List.mem_iff_getElem?.1 there
      exact treeless _ _ _ (.custom found here)
  · rintro ⟨modifiers, effects⟩ owner c gate bears
    cases bears with
    | modifier there => exact modifiers _ (ModifierLists.mem_toList.2 ⟨_, there⟩)
    | stack found held => exact (effects _ (Table.mem_values.2 ⟨_, found⟩)).1 _ held
    | custom found there =>
        exact (effects _ (Table.mem_values.2 ⟨_, found⟩)).2 _ (List.mem_of_getElem? there)

instance [DecidableEq π] (e : Entity π) : Decidable e.Treeless := decidable_of_iff _ treeless_iff.symm

/-- The second entity is the first one with copies merged into its lists. -/
structure Copied (operators : OperatorTable) (copies : List (Modifier π)) (e e' : Entity π) :
    Prop where
  tidy : e'.Tidy
  watchers : e'.watchers = e.watchers
  get_eq : ∀ stat, e'.modifiers.get stat =
    operators.sorted (e.modifiers.get stat ++ copies.filter fun m => m.stat = stat)

variable {operators : OperatorTable} {e e₁ e₂ : Entity π}

theorem Copied.refl (tidy : e.Tidy) (ranked : e.Ranked operators) : Copied operators [] e e where
  tidy := tidy
  watchers := rfl
  get_eq stat := by
    rw [List.filter_nil, List.append_nil]
    exact (ranked stat).eq_sorted fun _ => rfl

theorem Copied.trans {first second : List (Modifier π)} (before : Copied operators first e e₁)
    (after : Copied operators second e₁ e₂) : Copied operators (first ++ second) e e₂ where
  tidy := after.tidy
  watchers := after.watchers.trans before.watchers
  get_eq stat := by
    rw [after.get_eq, before.get_eq, OperatorTable.sorted_append_sorted, List.filter_append,
      List.append_assoc]

theorem Copied.ranked {copies : List (Modifier π)} (copied : Copied operators copies e e₁) :
    e₁.Ranked operators := by
  intro stat
  rw [copied.get_eq]
  exact OperatorTable.ranked_sorted _

variable [CustomTrigger π]

def withCopy (e : Entity π) (operators : OperatorTable) (m : Modifier π) : Entity π :=
  e.acquireModifier.2.takeHandle.2.addModifier operators (m.copy e.nextHandle)

theorem Copied.withCopy (tidy : e.Tidy) (ranked : e.Ranked operators) (m : Modifier π) :
    Copied operators [m.copy e.nextHandle] e (e.withCopy operators m) where
  tidy := tidy.acquireModifier.addNewModifier operators rfl
  watchers := rfl
  get_eq stat := by
    change (e.modifiers.insert operators (m.copy e.nextHandle)).get stat = _
    have sorted := (ranked stat).eq_sorted fun _ => rfl
    rw [ModifierLists.get_insert]
    split
    · rename_i here
      have own : [m.copy e.nextHandle].filter (fun other => other.stat = stat) =
          [m.copy e.nextHandle] := by simp [here]
      rw [own, sorted, OperatorTable.place_sorted, OperatorTable.sorted_append_sorted]
    · rename_i elsewhere
      have none : [m.copy e.nextHandle].filter (fun other => other.stat = stat) = [] := by
        simpa using fun same => elsewhere same.symm
      rw [none, List.append_nil]
      exact sorted

theorem Treeless.unwatched (treeless : e.Treeless) (attended : e.Attended) (stat : StatName) :
    e.watchers.get stat = [] := by
  refine List.eq_nil_iff_forall_not_mem.2 fun owner watches => ?_
  have there := attended.borne owner (.stat stat) watches
  obtain ⟨gate, bears⟩ := bears_of_present there
  exact there (treeless _ _ _ bears)

end Entity

/-! ### The copying -/

namespace Engine

open Act

variable [CustomTrigger π] {rules : Rulebook π} {nested : Nested π} {e : Entity π}

/-- An announcement that nobody watches for changes nothing. -/
theorem serve_unwatched (levels : Nat) {stat : StatName} (unwatched : e.watchers.get stat = []) :
    (serve rules (levels + 1) (.announce stat)).Brings e () e := by
  change (announceStat (serve rules levels) rules stat).Brings e () e
  unfold announceStat
  refine .bind (.record _ e) (.bind (.entity e) ?_)
  rw [unwatched]
  exact .pure () e

section

variable (announces : ∀ (e : Entity π) stat, e.watchers.get stat = [] →
  (nested (.announce stat)).Brings e () e)

include announces

/-- A modifier without a duration is kept when it is copied. -/
theorem copyOne_brings (tidy : e.Tidy) {m : Modifier π} (unwatched : e.watchers.get m.stat = [])
    (endless : m.duration = .absent) (count : Nat) :
    Brings (do
      let blank ← Act.updateEntity Entity.acquireModifier
      let outcome ← insertModifier nested rules (blank.configure m) m.source
      pure (if outcome.isApplied then count + 1 else count)) e (count + 1)
      (e.withCopy rules.operators m) := by
  refine .bind (.updateEntity Entity.acquireModifier e) ?_
  rw [tidy.acquireModifier_fst]
  have attached : ({ Modifier.blank.configure m with id := e.nextHandle }).attach
      (rules.readings e.acquireModifier.2.takeHandle.2) m.source = m.copy e.nextHandle := by
    unfold Modifier.configure
    rw [endless]
    rfl
  have announced := announces (e.withCopy rules.operators m) m.stat unwatched
  exact (insertModifier_brings attached (.inl rfl) announced).bind (.pure _ _)

theorem copyModifiers_brings (tidy : e.Tidy) (ranked : e.Ranked rules.operators)
    (unwatched : ∀ stat, e.watchers.get stat = []) {list : List (Modifier π)}
    (endless : ∀ m ∈ list, m.duration = .absent) :
    ∃ e', (copyModifiers nested rules list).Brings e list.length e' ∧
      e.Copied rules.operators (Modifier.copies e.nextHandle list) e' := by
  suffices loop : ∀ count, ∃ e', Brings (list.foldlM (fun copied m => do
        let blank ← Act.updateEntity Entity.acquireModifier
        let outcome ← insertModifier nested rules (blank.configure m) m.source
        pure (if outcome.isApplied then copied + 1 else copied)) count) e (count + list.length) e' ∧
      e.Copied rules.operators (Modifier.copies e.nextHandle list) e' by
    have whole := loop 0
    rwa [Nat.zero_add] at whole
  induction list generalizing e with
  | nil => exact fun count => ⟨e, .pure count e, .refl tidy ranked⟩
  | cons m rest ih =>
      intro count
      have one := Entity.Copied.withCopy tidy ranked m
      obtain ⟨e', brings, copied⟩ := ih one.tidy one.ranked
        (fun stat => by rw [one.watchers]; exact unwatched stat)
        (fun other there => endless other (List.mem_cons_of_mem _ there)) (count + 1)
      refine ⟨e', ?_, one.trans copied⟩
      rw [List.foldlM_cons, List.length_cons, Nat.add_comm rest.length, ← Nat.add_assoc]
      exact (copyOne_brings announces tidy (unwatched m.stat) (endless m (List.mem_cons_self ..))
        count).bind brings

end

end Engine

/-- Copying modifiers merges them into the lists that are there. Neither entity has a tree, the two may
follow different rules, and the lists of the other one may be gone through in any order. For each stat
what is there then is, but for the handles, the stable sort of what was there before followed by what
is copied of its list; as many modifiers come as there are of the source that is asked for, those of
effects left out; and each of them has a handle that was never given. On a stage of entities this is all
that happens: the one that copies becomes what the call makes of it, and no other changes. -/
theorem copies_merge_stably [CustomTrigger π] {rules rules' : Rulebook π}
    {snapshots snapshots' : Snapshot → Prop} {calls calls' : Entity π → Call π → Prop}
    {w w' : World π} (reached : Reached rules snapshots calls w) (treeless : w.entity.Treeless)
    (reached' : Reached rules' snapshots' calls' w') (treeless' : w'.entity.Treeless)
    (source : Option SourceTag) (levels : Nat) :
    Engine.perform rules (levels + 1) (.copyModifiers w'.entity source) =
      Engine.copyModifiers (Engine.serve rules (levels + 1)) rules
        (ModifierLists.offered source w'.entity.modifiers.lists.entries) ∧
    (∀ order, order.Perm w'.entity.modifiers.lists.entries →
      ∃ (after : World π) (copies : List (Modifier π)),
        Engine.copyModifiers (Engine.serve rules (levels + 1)) rules
            (ModifierLists.offered source order) w =
          .ok (w'.entity.modifiers.toList.countP (Modifier.isOffered source)) after ∧
        (∀ stat, (after.entity.modifiers.get stat).map Modifier.traits =
          rules.operators.sorted ((w.entity.modifiers.get stat ++
            (w'.entity.modifiers.get stat).filter (Modifier.isOffered source)).map
              Modifier.traits)) ∧
        (∀ stat, after.entity.modifiers.get stat = rules.operators.sorted
          (w.entity.modifiers.get stat ++ copies.filter fun m => m.stat = stat)) ∧
        (copies.map Modifier.id).Nodup ∧
        ∀ m ∈ copies, w.entity.nextHandle ≤ m.id ∧ m.id ∉ w.entity.handles) ∧
    ∀ (stage : Scenario.Stage π) (original : Nat),
      (∀ copied after, Engine.perform rules Scenario.levels
            (.copyModifiers (stage.seat original).entity source)
            (.ofEntity (stage.seat stage.current).entity) = .ok copied after →
          stage.run rules (.copyFrom original source) =
            (⟨.ok (.count copied), after.trace.reverse, (stage.seat stage.current).listeners⟩,
              stage.setSeat { stage.seat stage.current with entity := after.entity })) ∧
        ∀ index, index ≠ stage.current →
          (stage.run rules (.copyFrom original source)).2.seats[index]? = stage.seats[index]? := by
  refine ⟨congrArg _ (ModifierLists.filter_ofSource ..), fun order perm => ?_,
    fun stage original => ⟨fun _ _ => stage.run_copyFrom rules original source,
      fun _ => stage.seats_run_copyFrom rules original source⟩⟩
  obtain ⟨attended, -⟩ := reached.attended
  have filed := reached'.attended.1.tidy.filed
  have endless : ∀ m ∈ ModifierLists.offered source order, m.duration = .absent := by
    intro m there
    have listed := (perm.map Prod.snd).flatten.mem_iff.1 (List.mem_filter.1 there).1
    obtain ⟨stat, member⟩ := ModifierLists.mem_toList.1 listed
    exact treeless' _ _ _ (.modifier member)
  obtain ⟨e', brings, copied⟩ := Engine.copyModifiers_brings
    (fun _ _ => Engine.serve_unwatched levels) attended.tidy reached.ranked
    (treeless.unwatched attended) endless
  obtain ⟨after, run, rfl⟩ := brings w rfl
  rw [ModifierLists.length_offered perm] at run
  refine ⟨after, _, run, fun stat => ?_, copied.get_eq, ?_, fun m there => ?_⟩
  · rw [copied.get_eq, OperatorTable.map_sorted Modifier.traits_op, List.map_append, List.map_append,
      Modifier.traits_filter_copies, ModifierLists.filter_offered filed perm]
  · rw [Modifier.ids_copies]
    exact List.nodup_range'
  · have given := List.mem_map_of_mem (f := Modifier.id) there
    rw [Modifier.ids_copies, List.mem_range'_1] at given
    have new := given.1
    refine ⟨new, fun taken => ?_⟩
    obtain ⟨holder, holds⟩ := Entity.mem_handles.1 taken
    exact absurd (attended.tidy.below holds) (Nat.not_lt.2 new)

def blessing : EffectDefinition Empty :=
  { EffectDefinition.ofName "blessing" with modifiers := [.ofParts "might" .add 7] }

def blessingRules : Rulebook Empty :=
  ((Rulebook.builtin.registerEffect blessing).toOption).getD .builtin

/-- Of three modifiers two are copied: the blessing does not go over to the other entity. -/
theorem might_merged : ∃ w w' after : World Empty,
    Reached .builtin (fun _ => True) (fun _ _ => True) w ∧
    Reached blessingRules (fun _ => True) (fun _ _ => True) w' ∧
    w'.entity.modifiers.size = 3 ∧
    Engine.perform .builtin 1 (.copyModifiers w'.entity none) w = .ok 2 after ∧
    (after.entity.modifiers.get "might").map Modifier.traits =
      OperatorTable.builtin.sorted [.ofParts "might" .add 1, .ofParts "might" .percentAdd 3,
        { Modifier.ofParts "might" .add 2 with source := some "ring" },
        .ofParts "might" .percentAdd 5] := by
  have made : ((Engine.performAll (π := Empty) .builtin 2
      [.addModifier (.ofParts "might" .percentAdd 3) none,
        .addModifier (.ofParts "might" .add 1) none] (.ofEntity .new)).any fun w =>
      decide (w.entity.Treeless ∧ (w.entity.modifiers.get "might").map Modifier.traits =
        [.ofParts "might" .add 1, .ofParts "might" .percentAdd 3])) = true := by
    decide +kernel
  have made' : ((Engine.performAll blessingRules 6
      [.addModifier (.ofParts "might" .percentAdd 5) none, .addStack "blessing" (.ofValue 1) none,
        .addModifier (.ofParts "might" .add 2) (some "ring")] (.ofEntity .new)).any fun w =>
      decide (w.entity.Treeless ∧ w.entity.modifiers.size = 3 ∧
        w.entity.modifiers.toList.countP (Modifier.isOffered none) = 2 ∧
        ((w.entity.modifiers.get "might").filter (Modifier.isOffered none)).map Modifier.traits =
          [{ Modifier.ofParts "might" .add 2 with source := some "ring" },
            .ofParts "might" .percentAdd 5])) = true := by
    decide +kernel
  obtain ⟨w, run, checked⟩ := (Option.any_eq_true ..).1 made
  obtain ⟨w', run', checked'⟩ := (Option.any_eq_true ..).1 made'
  obtain ⟨treeless, before⟩ := of_decide_eq_true checked
  obtain ⟨treeless', size, count, offered⟩ := of_decide_eq_true checked'
  have reached : Reached .builtin (fun _ => True) (fun _ _ => True) w :=
    Engine.reached_of_performAll .new (fun _ _ _ => trivial) run
  have reached' : Reached blessingRules (fun _ => True) (fun _ _ => True) w' :=
    Engine.reached_of_performAll .new (fun _ _ _ => trivial) run'
  obtain ⟨same, merges, -⟩ := copies_merge_stably reached treeless reached' treeless' none 0
  obtain ⟨after, copies, copied, merged, -⟩ := merges _ (.refl _)
  refine ⟨w, w', after, reached, reached', size, ?_, ?_⟩
  · rw [same, copied, count]
  · rw [merged, List.map_append, before, offered]
    rfl

end StatusEffects
