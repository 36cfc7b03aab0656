import StatusEffects.Entity.Snapshot
import StatusEffects.Proofs.Records

/-!
What is saved is read back.

Every written form denotes what it was written from, in any arrangement of its members: a tree of
conditions by induction over the tree, where the parameters of a node stand among its own members
and may not go under their names, the records member by member.
-/

set_option autoImplicit false

namespace StatusEffects

open Json (Denotes Source denotes_members denotes_record getD_given given given_cons_of_ne
  given_cons_self given_of_mem kept kept_all kept_cons kept_cons_of_none kept_nil)

/-! ### Conditions -/

namespace ConditionForm

def reserved : List String := ["type", "not", "reup_on_met", "ignore_with_source", "and", "or"]

/-- The parameters of no node go under the name of something else, and their numbers are finite. -/
inductive Savable : ConditionForm → Prop where
  | absent : Savable .absent
  | node {tag : String} {negated restartsOnMet ignoresSourced : Bool} {params : Params}
      {next alternative : ConditionForm} (free : ∀ name ∈ reserved, params.get? name = none)
      (values : ∀ name value, params.get? name = some value → value.Canonical)
      (both : Savable next) (either : Savable alternative) :
      Savable (.node tag negated restartsOnMet ignoresSourced params next alternative)

def branch (name : String) : ConditionForm → List (String × Json)
  | .absent => []
  | .node tag negated restartsOnMet ignoresSourced params next alternative =>
    [(name, (node tag negated restartsOnMet ignoresSourced params next alternative).json)]

theorem mem_branch {name : String} {form : ConditionForm} {m : String × Json} :
    m ∈ branch name form ↔ form ≠ .absent ∧ m = (name, form.json) := by
  cases form with
  | absent => simp [branch]
  | node => simp [branch]

theorem branch_names (name : String) (form : ConditionForm) :
    ((branch name form).map Prod.fst).Sublist [name] := by
  cases form with
  | absent => exact List.nil_sublist _
  | node => exact .refl _

/-- A form is left out only if it is absent. -/
theorem absent_of_left {name : String} {form : ConditionForm} {seen : List String}
    (all : (name, form.json) ∈ branch name form → name ∈ seen) (left : name ∉ seen) :
    form = .absent := by
  by_contra there
  exact left (all (mem_branch.2 ⟨there, rfl⟩))

def ownMembers (tag : String) (negated restartsOnMet ignoresSourced : Bool)
    (next alternative : ConditionForm) : List (String × Json) :=
  [("type", .str tag), ("not", .bool negated), ("reup_on_met", .bool restartsOnMet),
    ("ignore_with_source", .bool ignoresSourced)] ++ branch "and" next ++ branch "or" alternative

/-- What has been read of a node when the members of certain names have been met. -/
def draftOf (tag : String) (negated restartsOnMet ignoresSourced : Bool) (params : Params)
    (next alternative : ConditionForm) (seen : List String) : Draft :=
  ⟨given seen "type" tag, given seen "not" negated, given seen "reup_on_met" restartsOnMet,
    given seen "ignore_with_source" ignoresSourced, given seen "and" next,
    given seen "or" alternative, kept params seen⟩

section

variable {tag : String} {negated restartsOnMet ignoresSourced : Bool} {params : Params}
  {next alternative : ConditionForm}

theorem json_node :
    (node tag negated restartsOnMet ignoresSourced params next alternative).json = .object
      (ownMembers tag negated restartsOnMet ignoresSourced next alternative ++ params.entries) := by
  rw [json]
  cases next <;> cases alternative <;> rfl

/-- However a form is arranged, it is an object. -/
theorem source_of_branch {form : ConditionForm} {j : Json} (there : form ≠ .absent)
    (rearranged : form.json.Rearranged j) : ∃ members, Source.ofJson j = .obj members .counted := by
  cases form with
  | absent => exact absurd rfl there
  | node =>
      rw [json_node] at rearranged
      obtain ⟨others, rfl, -⟩ := rearranged.members
      exact ⟨_, rfl⟩

section

variable {d : Draft} {members rest : List (String × Source)} {form : ConditionForm}

theorem ofMembers_and (new : d.next = none) (reads : ofSource (.obj members .counted) = .ok form) :
    ofMembers d (("and", .obj members .counted) :: rest) =
      ofMembers { d with next := some form } rest := by
  rw [ofMembers.eq_8 d rest (.obj members .counted) new nofun, reads]
  rfl

theorem ofMembers_or (new : d.alternative = none)
    (reads : ofSource (.obj members .counted) = .ok form) :
    ofMembers d (("or", .obj members .counted) :: rest) =
      ofMembers { d with alternative := some form } rest := by
  rw [ofMembers.eq_11 d rest (.obj members .counted) new nofun, reads]
  rfl

/-- Every member that a node does not have itself is a parameter. -/
theorem ofMembers_param {name : String} {s : Source} {value : Json} (foreign : name ∉ reserved)
    (reads : s.value? = some value) : ofMembers d ((name, s) :: rest) =
      ofMembers { d with params := d.params.insert name value } rest := by
  simp only [reserved, List.mem_cons, List.not_mem_nil, or_false, not_or] at foreign
  obtain ⟨tag, negated, restarts, ignores, both, either⟩ := foreign
  have decodes : s.value = .ok value := by
    unfold Source.value
    rw [reads]
    rfl
  rw [ofMembers.eq_12 _ _ _ _ tag negated restarts ignores both either, decodes]
  rfl

end

section

variable (free : ∀ name ∈ reserved, params.get? name = none)

include free

theorem distinct_members :
    ((ownMembers tag negated restartsOnMet ignoresSourced next alternative ++ params.entries).map
      Prod.fst).Nodup := by
  have listed : ((ownMembers tag negated restartsOnMet ignoresSourced next alternative).map
      Prod.fst).Sublist reserved := by
    unfold ownMembers
    rw [List.map_append, List.map_append]
    exact ((List.Sublist.refl ["type", "not", "reup_on_met", "ignore_with_source"]).append
      (branch_names "and" next)).append (branch_names "or" alternative)
  rw [List.map_append]
  refine List.nodup_append.2 ⟨listed.nodup (by decide), params.nodup_keys, ?_⟩
  rintro name member other entry rfl
  obtain ⟨entry, present, rfl⟩ := List.mem_map.1 entry
  rw [Table.mem_entries_iff, free _ (listed.subset member)] at present
  cases present

theorem kept_reserved {name : String} (known : name ∈ reserved) (seen : List String) :
    kept params (name :: seen) = kept params seen :=
  kept_cons_of_none (free name known)

/-- The parts of a node beside its parameters are read one by one. -/
theorem reads_own (ofNext : next ≠ .absent → next.json.Denotes ofSource next)
    (ofAlternative : alternative ≠ .absent → alternative.json.Denotes ofSource alternative) :
    ∀ m ∈ ownMembers tag negated restartsOnMet ignoresSourced next alternative,
      ∀ seen, m.1 ∉ seen → ∀ j, m.2.Rearranged j → ∀ rest,
        ofMembers (draftOf tag negated restartsOnMet ignoresSourced params next alternative seen)
            ((m.1, Source.ofJson j) :: rest) =
          ofMembers (draftOf tag negated restartsOnMet ignoresSourced params next alternative
            (m.1 :: seen)) rest := by
  unfold ownMembers
  simp only [List.forall_mem_append, List.forall_mem_cons]
  refine ⟨⟨⟨?_, ?_, ?_, ?_, nofun⟩, ?_⟩, ?_⟩
  · intro seen new j rearranged rest
    have reads := (Json.denotes_text tag).once new rearranged
    rw [ofMembers, draftOf, reads]
    simp [draftOf, given_cons_self, given_cons_of_ne, kept_reserved free (by decide : "type" ∈ _)]
    rfl
  · intro seen new j rearranged rest
    have reads := (Json.denotes_flag negated).once new rearranged
    rw [ofMembers, draftOf, reads]
    simp [draftOf, given_cons_self, given_cons_of_ne, kept_reserved free (by decide : "not" ∈ _)]
    rfl
  · intro seen new j rearranged rest
    have reads := (Json.denotes_flag restartsOnMet).once new rearranged
    rw [ofMembers, draftOf, reads]
    simp [draftOf, given_cons_self, given_cons_of_ne,
      kept_reserved free (by decide : "reup_on_met" ∈ _)]
    rfl
  · intro seen new j rearranged rest
    have reads := (Json.denotes_flag ignoresSourced).once new rearranged
    rw [ofMembers, draftOf, reads]
    simp [draftOf, given_cons_self, given_cons_of_ne,
      kept_reserved free (by decide : "ignore_with_source" ∈ _)]
    rfl
  · intro m member seen new j rearranged rest
    obtain ⟨there, rfl⟩ := mem_branch.1 member
    obtain ⟨members, object⟩ := source_of_branch there rearranged
    have reads := ofNext there j rearranged
    unfold Json.decodeValue at reads
    dsimp only
    rw [object] at reads ⊢
    rw [ofMembers_and (if_neg new) reads]
    simp [draftOf, given_cons_self, given_cons_of_ne, kept_reserved free (by decide : "and" ∈ _)]
  · intro m member seen new j rearranged rest
    obtain ⟨there, rfl⟩ := mem_branch.1 member
    obtain ⟨members, object⟩ := source_of_branch there rearranged
    have reads := ofAlternative there j rearranged
    unfold Json.decodeValue at reads
    dsimp only
    rw [object] at reads ⊢
    rw [ofMembers_or (if_neg new) reads]
    simp [draftOf, given_cons_self, given_cons_of_ne, kept_reserved free (by decide : "or" ∈ _)]

theorem reads_param
    (values : ∀ name value, params.get? name = some value → value.Canonical) :
    ∀ m ∈ params.entries, ∀ seen, m.1 ∉ seen → ∀ j, m.2.Rearranged j → ∀ rest,
      ofMembers (draftOf tag negated restartsOnMet ignoresSourced params next alternative seen)
          ((m.1, Source.ofJson j) :: rest) =
        ofMembers (draftOf tag negated restartsOnMet ignoresSourced params next alternative
          (m.1 :: seen)) rest := by
  rintro ⟨name, value⟩ member seen new j rearranged rest
  have found : params.get? name = some value := Table.mem_entries_iff.1 member
  have reads := (values name value found).value? rearranged
  have foreign : name ∉ reserved := fun known => by
    rw [free name known] at found
    cases found
  rw [ofMembers_param foreign reads]
  simp only [reserved, List.mem_cons, List.not_mem_nil, or_false, not_or] at foreign
  simp [draftOf, kept_cons found, given_cons_of_ne, Ne.symm, foreign]

end

/-- Once all members have been met, the draft is complete. -/
theorem finish_draftOf {seen : List String} (all : ∀ m ∈
      ownMembers tag negated restartsOnMet ignoresSourced next alternative ++ params.entries,
    m.1 ∈ seen) :
    (draftOf tag negated restartsOnMet ignoresSourced params next alternative seen).finish =
      .ok (node tag negated restartsOnMet ignoresSourced params next alternative) := by
  unfold ownMembers at all
  simp only [List.forall_mem_append, List.forall_mem_cons] at all
  obtain ⟨⟨⟨⟨tagMet, negatedMet, restartsMet, ignoresMet, -⟩, nextMet⟩, alternativeMet⟩, paramsMet⟩ :=
    all
  have nextWhole : (given seen "and" next).getD .absent = next :=
    getD_given (absent_of_left (nextMet ("and", next.json)))
  have alternativeWhole : (given seen "or" alternative).getD .absent = alternative :=
    getD_given (absent_of_left (alternativeMet ("or", alternative.json)))
  have paramsWhole : kept params seen = params := kept_all fun key v found =>
    paramsMet (key, v) (Table.mem_entries_iff.2 found)
  simp only [draftOf, Draft.finish, given_of_mem tagMet, given_of_mem negatedMet,
    given_of_mem restartsMet, given_of_mem ignoresMet, nextWhole, alternativeWhole, paramsWhole]
  rfl

end

/-- A form that is not absent is read back. -/
theorem Savable.denotes {f : ConditionForm} (savable : f.Savable) (there : f ≠ .absent) :
    f.json.Denotes ofSource f := by
  induction savable with
  | absent => exact absurd rfl there
  | @node tag negated restartsOnMet ignoresSourced params next alternative free values _ _ ofNext
      ofAlternative =>
      rw [json_node]
      refine .object (distinct_members free) (denotes_members ofMembers (distinct_members free)
        (fun _ => rfl) (fun d => by rw [ofMembers]; rfl)
        (draftOf tag negated restartsOnMet ignoresSourced params next alternative) ?_ ?_
        fun seen all => ?_)
      · unfold draftOf
        rw [kept_nil]
        rfl
      · exact List.forall_mem_append.2 ⟨reads_own free ofNext ofAlternative, reads_param free values⟩
      · exact finish_draftOf fun m member => (all m.1).2 (List.mem_map_of_mem member)

/-- Where a form may be absent, it is read back whatever it is. -/
theorem Savable.denotes_optional {f : ConditionForm} (savable : f.Savable) :
    f.json.Denotes ofOptional f := by
  intro j rearranged
  by_cases absent : f = .absent
  · subst absent
    cases rearranged
    rfl
  · obtain ⟨members, object⟩ := source_of_branch absent rearranged
    have reads := savable.denotes absent j rearranged
    unfold Json.decodeValue at reads ⊢
    rw [object] at reads ⊢
    exact reads

end ConditionForm

/-! ### Parts of records -/

def sourceMember : Option SourceTag → List (String × Json)
  | none => []
  | some source => [("source", .str source)]

theorem mem_sourceMember {source : Option SourceTag} {m : String × Json} :
    m ∈ sourceMember source ↔ ∃ tag, source = some tag ∧ m = ("source", .str tag) := by
  cases source with
  | none => simp [sourceMember]
  | some tag => simp [sourceMember]

theorem sourceMember_names (source : Option SourceTag) :
    ((sourceMember source).map Prod.fst).Sublist ["source"] := by
  cases source with
  | none => exact List.nil_sublist _
  | some tag => exact .refl _

theorem none_of_left {source : Option SourceTag} {seen : List String}
    (all : ∀ m ∈ sourceMember source, m.1 ∈ seen) (left : "source" ∉ seen) : source = none := by
  cases source with
  | none => rfl
  | some tag => exact absurd (all _ (List.mem_singleton_self _)) left

/-- A way of stacking is read back. -/
theorem Stacking.denotes (s : Stacking) : s.json.Denotes Stacking.ofSource s := by
  have tag : Json.Denotes ofTag (.str s.name) s := by
    intro j rearranged
    cases rearranged
    cases s <;> rfl
  have distinct : ["type"].Nodup := by decide
  refine .object distinct (denotes_record distinct (fun _ => rfl) (given · "type" s) rfl ?_
    fun seen all => ?_)
  · simp only [List.forall_mem_cons]
    refine ⟨fun seen new j rearranged => ?_, nofun⟩
    have reads := tag.once new rearranged
    simp [reads, given_cons_self]
  · have met : "type" ∈ seen := by simp [all]
    rw [given_of_mem met]
    rfl

/-! ### Stacks and modifiers -/

namespace StackForm

def Savable (f : StackForm) : Prop := f.duration.Savable

def members (f : StackForm) : List (String × Json) :=
  [("value", .int f.value.toNat)] ++ ConditionForm.branch "duration" f.duration ++
    sourceMember f.source

theorem json_eq (f : StackForm) : f.json = .object f.members := by
  obtain ⟨value, duration, source⟩ := f
  cases duration <;> cases source <;> rfl

theorem distinct_members (f : StackForm) : (f.members.map Prod.fst).Nodup := by
  have listed : ["value", "duration", "source"].Nodup := by decide
  unfold members
  rw [List.map_append, List.map_append]
  exact (((List.Sublist.refl ["value"]).append (ConditionForm.branch_names ..)).append
    (sourceMember_names _)).nodup listed

theorem Savable.denotes {f : StackForm} (savable : f.Savable) : f.json.Denotes ofSource f := by
  let draft (seen : List String) : Draft :=
    ⟨given seen "value" f.value, given seen "duration" f.duration, given seen "source" f.source⟩
  rw [json_eq]
  refine .object f.distinct_members (denotes_record f.distinct_members (fun _ => rfl) draft rfl ?_
    fun seen all => ?_)
  · unfold members
    simp only [List.forall_mem_append, List.forall_mem_cons]
    refine ⟨⟨⟨?_, nofun⟩, ?_⟩, ?_⟩
    · intro seen new j rearranged
      have reads := (Json.denotes_count f.value).once new rearranged
      simp [draft, reads, given_cons_self, given_cons_of_ne]
    · intro m member seen new j rearranged
      obtain ⟨-, rfl⟩ := ConditionForm.mem_branch.1 member
      have reads := (ConditionForm.Savable.denotes_optional savable).once new rearranged
      simp [draft, reads, given_cons_self, given_cons_of_ne]
    · intro m member seen new j rearranged
      obtain ⟨tag, there, rfl⟩ := mem_sourceMember.1 member
      have reads := ((Json.denotes_text tag).optional nofun).once new rearranged
      simp [draft, reads, there, given_cons_self, given_cons_of_ne]
  · have met : ∀ m ∈ f.members, m.1 ∈ seen := fun m member =>
      (all m.1).2 (List.mem_map_of_mem member)
    unfold members at met
    simp only [List.forall_mem_append, List.forall_mem_cons] at met
    obtain ⟨⟨⟨value, -⟩, duration⟩, source⟩ := met
    have durationWhole : (given seen "duration" f.duration).getD .absent = f.duration :=
      getD_given (ConditionForm.absent_of_left (duration _))
    have sourceWhole : (given seen "source" f.source).getD none = f.source :=
      getD_given (none_of_left source)
    simp only [draft, given_of_mem value, durationWhole, sourceWhole]
    rfl

end StackForm

namespace ModifierForm

/-- A written modifier can be read back: its value is finite, and its operator is the one of some
name. -/
structure Savable (f : ModifierForm) : Prop where
  value : f.value.isFinite = true
  op : ∃ name, f.op = Operator.ofName name
  duration : f.duration.Savable

def members (f : ModifierForm) : List (String × Json) :=
  [("stat", .str f.stat), ("op", .str f.op.name), ("value", .ofFloat (Single.widen f.value)),
    ("is_hidden", .bool f.hidden)] ++ ConditionForm.branch "duration" f.duration ++
    sourceMember f.source

theorem json_eq (f : ModifierForm) : f.json = .obj f.members := by
  obtain ⟨stat, op, value, hidden, duration, source⟩ := f
  cases duration <;> cases source <;> rfl

theorem distinct_members (f : ModifierForm) : (f.members.map Prod.fst).Nodup := by
  have listed : ["stat", "op", "value", "is_hidden", "duration", "source"].Nodup := by decide
  unfold members
  rw [List.map_append, List.map_append]
  exact (((List.Sublist.refl ["stat", "op", "value", "is_hidden"]).append
    (ConditionForm.branch_names ..)).append (sourceMember_names _)).nodup listed

theorem denotes_operator {op : Operator} (named : ∃ name, op = Operator.ofName name) :
    Json.Denotes operator (.str op.name) op := by
  obtain ⟨name, rfl⟩ := named
  intro j rearranged
  cases rearranged
  change Except.ok (Operator.ofName (Operator.ofName name).name) = _
  rw [Operator.name_ofName]

theorem Savable.denotes {f : ModifierForm} (savable : f.Savable) : f.json.Denotes ofSource f := by
  let draft (seen : List String) : Draft :=
    ⟨given seen "stat" f.stat, given seen "op" f.op, given seen "value" f.value,
      given seen "is_hidden" f.hidden, given seen "duration" f.duration,
      given seen "source" f.source⟩
  rw [json_eq]
  refine denotes_record f.distinct_members (fun _ => rfl) draft rfl ?_ fun seen all => ?_
  · unfold members
    simp only [List.forall_mem_append, List.forall_mem_cons]
    refine ⟨⟨⟨?_, ?_, ?_, ?_, nofun⟩, ?_⟩, ?_⟩
    · intro seen new j rearranged
      have reads := (Json.denotes_text f.stat).once new rearranged
      simp [draft, reads, given_cons_self, given_cons_of_ne]
    · intro seen new j rearranged
      have reads := (denotes_operator savable.op).once new rearranged
      simp [draft, reads, given_cons_self, given_cons_of_ne]
    · intro seen new j rearranged
      have reads := (Json.denotes_single savable.value).once new rearranged
      simp [draft, reads, given_cons_self, given_cons_of_ne]
    · intro seen new j rearranged
      have reads := (Json.denotes_flag f.hidden).once new rearranged
      simp [draft, reads, given_cons_self, given_cons_of_ne]
    · intro m member seen new j rearranged
      obtain ⟨-, rfl⟩ := ConditionForm.mem_branch.1 member
      have reads := savable.duration.denotes_optional.once new rearranged
      simp [draft, reads, given_cons_self, given_cons_of_ne]
    · intro m member seen new j rearranged
      obtain ⟨tag, there, rfl⟩ := mem_sourceMember.1 member
      have reads := ((Json.denotes_text tag).optional nofun).once new rearranged
      simp [draft, reads, there, given_cons_self, given_cons_of_ne]
  · have met : ∀ m ∈ f.members, m.1 ∈ seen := fun m member =>
      (all m.1).2 (List.mem_map_of_mem member)
    unfold members at met
    simp only [List.forall_mem_append, List.forall_mem_cons] at met
    obtain ⟨⟨⟨stat, op, value, hidden, -⟩, duration⟩, source⟩ := met
    have durationWhole : (given seen "duration" f.duration).getD .absent = f.duration :=
      getD_given (ConditionForm.absent_of_left (duration _))
    have sourceWhole : (given seen "source" f.source).getD none = f.source :=
      getD_given (none_of_left source)
    simp only [draft, given_of_mem stat, given_of_mem op, given_of_mem value, given_of_mem hidden,
      durationWhole, sourceWhole]
    rfl

end ModifierForm

/-! ### Snapshots -/

theorem StatValue.denotes {v : StatValue} (base : v.base.isFinite = true)
    (current : v.current.isFinite = true) : v.json.Denotes StatValue.ofSource v := by
  have distinct : ["base_value", "current_value"].Nodup := by decide
  let draft (seen : List String) : Option Float32 × Option Float32 :=
    (given seen "base_value" v.base, given seen "current_value" v.current)
  refine .object distinct (denotes_record distinct (fun _ => rfl) draft rfl ?_ fun seen all => ?_)
  · simp only [List.forall_mem_cons]
    refine ⟨fun seen new j rearranged => ?_, fun seen new j rearranged => ?_, nofun⟩
    · have reads := (Json.denotes_single base).once new rearranged
      simp [draft, reads, given_cons_self, given_cons_of_ne]
    · have reads := (Json.denotes_single current).once new rearranged
      simp [draft, reads, given_cons_self, given_cons_of_ne]
  · have both : "base_value" ∈ seen ∧ "current_value" ∈ seen := by simp [all]
    simp only [draft, given_of_mem both.1, given_of_mem both.2]
    rfl

theorem EffectSnapshot.denotes {s : EffectSnapshot} (savable : ∀ f ∈ s.held, f.Savable) :
    s.json.Denotes EffectSnapshot.ofSource s := by
  have distinct : ["effect", "stacks"].Nodup := by decide
  let draft (seen : List String) : Option EffectName × Option (List StackForm) :=
    (given seen "effect" s.effect, given seen "stacks" s.held)
  refine .object distinct (denotes_record distinct (fun _ => rfl) draft rfl ?_ fun seen all => ?_)
  · simp only [List.forall_mem_cons]
    refine ⟨fun seen new j rearranged => ?_, fun seen new j rearranged => ?_, nofun⟩
    · have reads := (Json.denotes_text s.effect).once new rearranged
      simp [draft, reads, given_cons_self, given_cons_of_ne]
    · have reads := (Json.denotes_list fun f member => (savable f member).denotes).once new rearranged
      simp [draft, reads, given_cons_self, given_cons_of_ne]
  · have both : "effect" ∈ seen ∧ "stacks" ∈ seen := by simp [all]
    simp only [draft, given_of_mem both.1, given_of_mem both.2]
    rfl

namespace Snapshot

/-- A snapshot can be read back: all its numbers are finite, its operators are the ones of names, and
no condition has a parameter under a name of the format. -/
structure Savable (s : Snapshot) : Prop where
  stats : ∀ stat v, s.stats.get? stat = some v → v.base.isFinite = true ∧ v.current.isFinite = true
  modifiers : ∀ f ∈ s.modifiers, f.Savable
  effects : ∀ effect ∈ s.effects, ∀ f ∈ effect.held, f.Savable

/-- A snapshot is read back. -/
theorem Savable.denotes {s : Snapshot} (savable : s.Savable) : s.json.Denotes ofSource s := by
  have distinct : ["stats", "modifiers", "effects"].Nodup := by decide
  let draft (seen : List String) : Draft :=
    ⟨given seen "stats" s.stats, given seen "modifiers" s.modifiers, given seen "effects" s.effects⟩
  refine denotes_record distinct (fun _ => rfl) draft rfl ?_ fun seen all => ?_
  · simp only [List.forall_mem_cons]
    refine ⟨?_, ?_, ?_, nofun⟩
    · intro seen new j rearranged
      have reads := (Json.denotes_table fun stat v found =>
        StatValue.denotes (savable.stats stat v found).1
          (savable.stats stat v found).2).once new rearranged
      simp [draft, reads, given_cons_self, given_cons_of_ne]
    · intro seen new j rearranged
      have reads := (Json.denotes_list fun f member =>
        (savable.modifiers f member).denotes).once new rearranged
      simp [draft, reads, given_cons_self, given_cons_of_ne]
    · intro seen new j rearranged
      have reads := (Json.denotes_list fun effect member =>
        EffectSnapshot.denotes (savable.effects effect member)).once new rearranged
      simp [draft, reads, given_cons_self, given_cons_of_ne]
  · have met : "stats" ∈ seen ∧ "modifiers" ∈ seen ∧ "effects" ∈ seen := by simp [all]
    simp only [draft, given_of_mem met.1, given_of_mem met.2.1, given_of_mem met.2.2]
    rfl

end Snapshot

/-- What is saved is read back, however the members of the objects in it are arranged: snapshots, and
on their own condition trees, modifiers, stacks and ways of stacking. -/
theorem saved_read_back :
    (∀ s : Snapshot, s.Savable → s.json.Denotes Snapshot.ofSource s) ∧
    (∀ f : ConditionForm, f ≠ .absent → f.Savable → f.json.Denotes ConditionForm.ofSource f) ∧
    (∀ f : ModifierForm, f.Savable → f.json.Denotes ModifierForm.ofSource f) ∧
    (∀ f : StackForm, f.Savable → f.json.Denotes StackForm.ofSource f) ∧
    (∀ s : Stacking, s.json.Denotes Stacking.ofSource s) :=
  ⟨fun _ savable => savable.denotes, fun _ there savable => savable.denotes there,
    fun _ savable => savable.denotes, fun _ savable => savable.denotes, Stacking.denotes⟩

def fuse : ConditionForm :=
  .node "timed" false true false
    ⟨[("duration", .float 2.5), ("log", .arr [.null, .obj [("a", .int (-1)), ("b", .bool true)]])],
      by decide⟩
    (.node "resource" true false false ⟨[("stat", .str "health")], by decide⟩ .absent .absent)
    .absent

def surge : ModifierForm := ⟨"health", .custom "surge", 5, true, fuse, some "ring"⟩

def shard : StackForm := ⟨3, .absent, some "ring"⟩

def journal : Snapshot where
  stats := ⟨[("health", ⟨100, 62.5⟩)], List.pairwise_singleton ..⟩
  modifiers := [surge]
  effects := [⟨"burn", [shard]⟩]

theorem fuse_savable : fuse.Savable := by
  have log : (Json.arr [.null, .obj [("a", .int (-1)), ("b", .bool true)]]).Canonical := by
    refine .arr ?_
    simp only [List.forall_mem_cons]
    refine ⟨.null, .obj (by decide) ?_, nofun⟩
    simp only [List.forall_mem_cons]
    exact ⟨.int _, .bool _, nofun⟩
  refine .node (by decide) (fun name value found => ?_)
    (.node (by decide) (fun name value found => ?_) .absent .absent) .absent
  · rcases List.mem_cons.1 (Table.mem_of_lookup found) with same | later
    · cases same
      exact .float (by decide +kernel)
    · cases List.mem_singleton.1 later
      exact log
  · cases List.mem_singleton.1 (Table.mem_of_lookup found)
    exact .str _

theorem surge_savable : surge.Savable :=
  ⟨by decide +kernel, ⟨"surge", rfl⟩, fuse_savable⟩

theorem journal_savable : journal.Savable where
  stats stat v found := by
    cases List.mem_singleton.1 (Table.mem_of_lookup found)
    decide +kernel
  modifiers f member := by
    cases List.mem_singleton.1 member
    exact surge_savable
  effects effect member f held := by
    cases List.mem_singleton.1 member
    cases List.mem_singleton.1 held
    exact .absent

/-- The snapshot and its parts are read back from what is written. -/
theorem journal_read_back : journal.Savable ∧ surge.Savable ∧ shard.Savable ∧
    fuse ≠ .absent ∧ fuse.Savable ∧
    Json.decodeValue Snapshot.ofSource journal.json = .ok journal ∧
    Json.decodeValue ModifierForm.ofSource surge.json = .ok surge ∧
    Json.decodeValue StackForm.ofSource shard.json = .ok shard ∧
    Json.decodeValue ConditionForm.ofSource fuse.json = .ok fuse := by
  have there : fuse ≠ .absent := nofun
  have bare : shard.Savable := .absent
  obtain ⟨snapshots, trees, modifiers, held, -⟩ := saved_read_back
  exact ⟨journal_savable, surge_savable, bare, there, fuse_savable,
    snapshots journal journal_savable _ (.same _), modifiers surge surge_savable _ (.same _),
    held shard bare _ (.same _), trees fuse there fuse_savable _ (.same _)⟩

end StatusEffects
