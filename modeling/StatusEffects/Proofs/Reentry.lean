import StatusEffects.Proofs.CallPaths

/-!
Modified hooks never run inside themselves.

The hook of a stat may set other stats, whose hooks set the first one again, and a change is announced
before the hook starts, so reactions may set the stat from deeper levels. What keeps the hooks apart is
the list of stats that the entity is modifying. It holds the stats of the modified hooks that the trace
shows to be open: a stat is added before its hook starts and taken away after it has ended, and between
two steps of a script whole hooks run or none.

The trace of a call that fails is covered as well, so calls that never come back are no exception.
-/

set_option autoImplicit false

namespace StatusEffects

variable {π : Type}

/-! ### Hooks that are open -/

def openHooks : List (Occurrence π) → List Hook
  | [] => []
  | .hookStarted hook _ :: earlier => hook :: openHooks earlier
  | .hookEnded .. :: earlier => (openHooks earlier).tail
  | _ :: earlier => openHooks earlier

def Hook.stat? : Hook → Option StatName
  | .modified stat => some stat
  | _ => none

def modifiedStats (hooks : List Hook) : List StatName := hooks.filterMap Hook.stat?

def Occurrence.isOfHook : Occurrence π → Bool
  | .hookStarted .. | .hookEnded .. => true
  | _ => false

/-- Things happen in which every hook that starts ends. Strictly so if no script acts in them but in a
hook that starts there, which is no modified hook. -/
inductive Balanced : (strict : Prop) → List (Occurrence π) → Prop where
  | nil {strict : Prop} : Balanced strict []
  | tell {strict : Prop} {o : Occurrence π} {rest : List (Occurrence π)} (other : o.isOfHook = false)
      (plain : strict → o.isOfScript = false) (before : Balanced strict rest) :
      Balanced strict (o :: rest)
  | run {strict : Prop} {hook : Hook} {inside rest : List (Occurrence π)} {start finish : Entity π}
      (other : strict → ∀ stat, hook ≠ .modified stat) (whole : Balanced False inside)
      (before : Balanced strict rest) :
      Balanced strict (.hookEnded hook finish :: (inside ++ .hookStarted hook start :: rest))

/-- Whether a script takes its next step after what happened. -/
def Resumes : List (Occurrence π) → Prop
  | .hookStarted .. :: _ | .called .. :: _ | .noted .. :: _ => True
  | _ => False

theorem mem_modifiedStats {stat : StatName} {hooks : List Hook} :
    stat ∈ modifiedStats hooks ↔ .modified stat ∈ hooks := by
  constructor
  · intro listed
    obtain ⟨hook, member, found⟩ := List.mem_filterMap.1 listed
    cases hook <;> cases found
    exact member
  · exact fun member => List.mem_filterMap.2 ⟨_, member, rfl⟩

theorem modifiedStats_cons_of_other {hook : Hook} (other : ∀ stat, hook ≠ .modified stat)
    (hooks : List Hook) : modifiedStats (hook :: hooks) = modifiedStats hooks := by
  refine List.filterMap_cons_none ?_
  cases hook with
  | modified stat => exact absurd rfl (other stat)
  | _ => rfl

theorem openHooks_cons {o : Occurrence π} (other : o.isOfHook = false)
    (earlier : List (Occurrence π)) : openHooks (o :: earlier) = openHooks earlier := by
  cases o with
  | hookStarted => cases other
  | hookEnded => cases other
  | _ => rfl

theorem Occurrence.isOfHook_of_plain {o : Occurrence π} (plain : o.isOfScript = false) :
    o.isOfHook = false := by
  cases o with
  | hookStarted => cases plain
  | hookEnded => cases plain
  | _ => rfl

namespace Balanced

variable {strict : Prop} {happened later : List (Occurrence π)}

theorem append (second : Balanced strict later) (first : Balanced strict happened) :
    Balanced strict (later ++ happened) := by
  induction second with
  | nil => exact first
  | tell other plain _ ih => exact .tell other plain (ih first)
  | run other whole _ _ ih =>
      rw [List.cons_append, List.append_assoc, List.cons_append]
      exact .run other whole (ih first)

theorem weaken (balanced : Balanced strict happened) : Balanced False happened := by
  induction balanced with
  | nil => exact .nil
  | tell other _ _ ih => exact .tell other False.elim ih
  | run _ whole _ _ ih => exact .run False.elim whole ih

/-- Where every hook that starts ends, the hooks that are open stay the same. -/
theorem openHooks_append (balanced : Balanced strict happened) (before : List (Occurrence π)) :
    openHooks (happened ++ before) = openHooks before := by
  induction balanced generalizing before with
  | nil => rfl
  | tell other _ _ ih => rw [List.cons_append, openHooks_cons other, ih]
  | run _ _ _ inner ih =>
      rw [List.cons_append, List.append_assoc, List.cons_append]
      change (openHooks (_ ++ _)).tail = _
      rw [inner]
      exact ih before

end Balanced

/-! ### What is right about a trace -/

inductive Call.Stores : Call π → StatName → (StatValue → Prop) → Prop where
  | base (stat : StatName) (value : Float32) :
      Stores (.setBase stat value) stat fun stored => stored.base = value
  | current (stat : StatName) (value : Float32) :
      Stores (.setCurrent stat value) stat fun stored => stored.current = value

inductive Occurrence.Stores : Occurrence π → StatName → (StatValue → Prop) → Prop where
  | called {c : Call π} {stat : StatName} {test : StatValue → Prop} (reply : c.Reply)
      (seen : Entity π) (stores : c.Stores stat test) : Stores (.called c reply seen) stat test

/-- What becomes of the modified hook of a stat that was set when certain things had happened: it runs
once, unless there is none or it runs already. -/
inductive RunsOnce (rules : Rulebook π) (stat : StatName) (before : List (Occurrence π)) :
    List (Occurrence π) → Prop where
  | run {hook : StatName → Script π Unit} {inside : List (Occurrence π)} {start finish : Entity π}
      (registered : rules.modifiedHooks.get? stat = some hook)
      (idle : .modified stat ∉ openHooks before) (whole : Balanced False inside) :
      RunsOnce rules stat before
        (.hookEnded (.modified stat) finish :: (inside ++ [.hookStarted (.modified stat) start]))
  | unregistered (absent : rules.modifiedHooks.get? stat = none) : RunsOnce rules stat before []
  | busy (runs : .modified stat ∈ openHooks before) : RunsOnce rules stat before []

/-- How a stat is set: the value is stored, the change is announced, whatever reacts to that does so
without a modified hook of this call, and then the modified hook of the stat runs once. -/
def SetRun (rules : Rulebook π) (stat : StatName) (test : StatValue → Prop)
    (before happened : List (Occurrence π)) : Prop :=
  ∃ run reactions seen, happened = run ++ (reactions ++ [.statChanged stat seen]) ∧
    test (rules.stat seen stat) ∧ Balanced True reactions ∧ RunsOnce rules stat before run

def hooksAt (earlier : List (Occurrence π)) : Occurrence π → List Hook
  | .hookStarted hook _ => hook :: openHooks earlier
  | _ => openHooks earlier

/-- What is right about something that happens after something else. -/
structure Occurrence.Heeds (rules : Rulebook π) (earlier : List (Occurrence π)) (o : Occurrence π) :
    Prop where
  /-- No modified hook starts while it runs. -/
  starts : ∀ stat seen, o = .hookStarted (.modified stat) seen → .modified stat ∉ openHooks earlier
  /-- Only the innermost hook ends. -/
  ends : ∀ hook seen, o = .hookEnded hook seen → ∃ outer, openHooks earlier = hook :: outer
  /-- Since the step of its script before it, a call to set a stat has done so and the modified hook
  has run once. -/
  sets : ∀ stat test, o.Stores stat test → ∃ happened before, earlier = happened ++ before ∧
    Resumes before ∧ SetRun rules stat test before happened
  /-- The entity is modifying the stats whose hooks run. -/
  guards : o.Shows (modifiedStats (hooksAt earlier o))

def Heedful (rules : Rulebook π) (trace : List (Occurrence π)) : Prop :=
  ∀ later o earlier, trace = later ++ o :: earlier → o.Heeds rules earlier

section

variable {rules : Rulebook π} {stat : StatName} {test : StatValue → Prop} {o : Occurrence π}
  {before earlier happened : List (Occurrence π)}

theorem RunsOnce.balanced (runs : RunsOnce rules stat before happened) : Balanced False happened := by
  cases runs with
  | run registered idle whole => exact .run False.elim whole .nil
  | unregistered absent => exact .nil
  | busy runs => exact .nil

theorem RunsOnce.of_same {before' : List (Occurrence π)} (same : openHooks before' = openHooks before)
    (runs : RunsOnce rules stat before' happened) : RunsOnce rules stat before happened := by
  cases runs with
  | run registered idle whole => exact .run registered (same ▸ idle) whole
  | unregistered absent => exact .unregistered absent
  | busy runs => exact .busy (same ▸ runs)

theorem SetRun.balanced (set : SetRun rules stat test before happened) : Balanced False happened := by
  obtain ⟨run, reactions, seen, rfl, -, reacts, runs⟩ := set
  exact runs.balanced.append (reacts.weaken.append (.tell rfl False.elim .nil))

theorem Heedful.nil : Heedful rules [] := by
  intro later o earlier whole
  have length := congrArg List.length whole
  simp at length

theorem Heedful.cons (heedful : Heedful rules earlier) (heeds : o.Heeds rules earlier) :
    Heedful rules (o :: earlier) := by
  intro later o' earlier' whole
  rcases List.cons_eq_append_iff.1 whole with ⟨rfl, same⟩ | ⟨later', rfl, rest⟩
  · cases same
    exact heeds
  · exact heedful later' o' earlier' rest

/-- The engine itself may tell whatever does not show other modified hooks. -/
theorem Occurrence.Heeds.of_plain (plain : o.isOfScript = false)
    (shows : o.Shows (modifiedStats (openHooks earlier))) : o.Heeds rules earlier where
  starts := by rintro stat seen rfl; cases plain
  ends := by rintro hook seen rfl; cases plain
  sets := by rintro stat test ⟨⟩; cases plain
  guards := by
    cases o with
    | hookStarted => cases plain
    | _ => exact shows

end

/-! ### Worlds that guard their hooks -/

/-- The trace of a world is right, and the entity is modifying the stats of the modified hooks that run
or are ahead. -/
structure World.Guarded (rules : Rulebook π) (ahead : List Hook) (w : World π) : Prop where
  tidy : w.entity.Tidy
  heedful : Heedful rules w.trace
  running : w.running = openHooks w.trace
  modifying : w.entity.modifying = modifiedStats (ahead ++ w.running)

/-- Since certain things have happened, every hook that started has ended. -/
structure World.Since (rules : Rulebook π) (strict : Prop) (before : List (Occurrence π))
    (w : World π) : Prop where
  guarded : w.Guarded rules []
  grown : ∃ happened, w.trace = happened ++ before ∧ Balanced strict happened

structure World.Ran (rules : Rulebook π) (hook : Hook) (w w' : World π) : Prop where
  guarded : w'.Guarded rules [hook]
  grown : ∃ inside start finish, Balanced False inside ∧
    w'.trace = .hookEnded hook finish :: (inside ++ .hookStarted hook start :: w.trace)

structure World.Made (rules : Rulebook π) (c : Call π) (w w' : World π) : Prop where
  guarded : w'.Guarded rules []
  grown : ∃ happened, w'.trace = happened ++ w.trace ∧ Balanced False happened ∧
    ∀ stat test, c.Stores stat test → SetRun rules stat test w.trace happened

section

variable {rules : Rulebook π} {strict : Prop} {w w₁ w₂ : World π} {o : Occurrence π}
  {before : List (Occurrence π)} {ahead : List Hook} {hook : Hook}

namespace World

theorem Guarded.shows (guarded : w.Guarded rules ahead) (seen : o.Shows w.entity.modifying) :
    o.Shows (modifiedStats (ahead ++ openHooks w.trace)) := by
  rw [← guarded.running, ← guarded.modifying]
  exact seen

theorem Guarded.tell (guarded : w.Guarded rules ahead) (other : o.isOfHook = false)
    (heeds : o.Heeds rules w.trace) : Guarded rules ahead { w with trace := o :: w.trace } where
  tidy := guarded.tidy
  heedful := guarded.heedful.cons heeds
  running := guarded.running.trans (openHooks_cons other w.trace).symm
  modifying := guarded.modifying

theorem Guarded.tell_plain (guarded : w.Guarded rules []) (plain : o.isOfScript = false)
    (seen : o.Shows w.entity.modifying) : Guarded rules [] { w with trace := o :: w.trace } :=
  guarded.tell (Occurrence.isOfHook_of_plain plain) (.of_plain plain (guarded.shows seen))

theorem Guarded.change (guarded : w.Guarded rules ahead) {e : Entity π} (tidy : e.Tidy)
    {ahead' : List Hook} (modifying : e.modifying = modifiedStats (ahead' ++ w.running)) :
    Guarded rules ahead' { w with entity := e } :=
  { guarded with tidy, modifying }

/-- Any hook but a modified one may start at once. -/
theorem guarded_ahead (other : ∀ stat, hook ≠ .modified stat) :
    w.Guarded rules [hook] ↔ w.Guarded rules [] := by
  have same : modifiedStats ([hook] ++ w.running) = modifiedStats ([] ++ w.running) :=
    modifiedStats_cons_of_other other w.running
  constructor
  · intro guarded
    exact { guarded with modifying := guarded.modifying.trans same }
  · intro guarded
    exact { guarded with modifying := guarded.modifying.trans same.symm }

theorem Since.refl (guarded : w.Guarded rules []) : w.Since rules strict w.trace :=
  ⟨guarded, [], rfl, .nil⟩

theorem Since.trans (first : w₁.Since rules strict before)
    (second : w₂.Since rules strict w₁.trace) : w₂.Since rules strict before := by
  obtain ⟨-, happened, grown, balanced⟩ := first
  obtain ⟨guarded, later, grown', balanced'⟩ := second
  exact ⟨guarded, later ++ happened, by rw [grown', grown, List.append_assoc],
    balanced'.append balanced⟩

theorem Since.openHooks (since : w.Since rules strict before) :
    openHooks w.trace = openHooks before := by
  obtain ⟨-, happened, grown, balanced⟩ := since
  rw [grown]
  exact balanced.openHooks_append before

/-- A hook that is no modified one has run whole. -/
theorem Ran.since (ran : w.Ran rules hook w₁) (other : ∀ stat, hook ≠ .modified stat) :
    w₁.Since rules strict w.trace := by
  obtain ⟨guarded, inside, start, finish, whole, grown⟩ := ran
  refine ⟨(guarded_ahead other).1 guarded,
    .hookEnded hook finish :: (inside ++ [.hookStarted hook start]), ?_,
    .run (fun _ => other) whole .nil⟩
  rw [grown, List.cons_append, List.append_assoc]
  rfl

theorem Made.since {c : Call π} (made : w.Made rules c w₁) : w₁.Since rules False w.trace := by
  obtain ⟨guarded, happened, grown, balanced, -⟩ := made
  exact ⟨guarded, happened, grown, balanced⟩

end World

end

/-! ### Steps -/

namespace Engine

open Act

/-- From a world a step comes back to a world that passes a test, or it fails and leaves the trace
right. -/
def Attains (rules : Rulebook π) {α : Type} (m : Act π α) (w : World π) (test : World π → Prop) : Prop :=
  m.Yields w (fun _ w' => test w') ∧ m.Fails w fun _ w' => Heedful rules w'.trace

structure Guards (rules : Rulebook π) (nested : Nested π) : Prop where
  announces : ∀ stat w, w.Guarded rules [] → Attains rules (nested (.announce stat)) w
    (World.Since rules True (.statChanged stat w.entity :: w.trace))
  runs : ∀ {hook script}, rules.Starts hook script → ∀ w, w.Guarded rules [hook] →
    (∀ stat, hook = .modified stat → hook ∉ w.running) →
    Attains rules (nested (.run hook script)) w (w.Ran rules hook)

def settingNone : Leeway := ⟨fun _ => True, False⟩

variable {rules : Rulebook π} {nested : Nested π} {α β : Type} {w : World π}

namespace Attains

variable {m : Act π α} {test weaker : World π → Prop}

theorem mono (attains : Attains rules m w test) (implies : ∀ w', test w' → weaker w') :
    Attains rules m w weaker :=
  ⟨attains.1.mono fun _ => implies, attains.2⟩

theorem bind {f : α → Act π β} {after : World π → Prop} (first : Attains rules m w test)
    (second : ∀ a w₁, test w₁ → Attains rules (f a) w₁ after) : Attains rules (m >>= f) w after := by
  constructor
  · rw [yields_bind]
    exact first.1.mono fun a w₁ passes => (second a w₁ passes).1
  · rw [fails_bind]
    exact ⟨first.2, first.1.mono fun a w₁ passes => (second a w₁ passes).2⟩

theorem pure (a : α) (passes : test w) : Attains rules (Pure.pure a) w test := by
  simpa [Attains] using passes

theorem modify_bind {change : World π → World π} {f : PUnit → Act π α}
    (rest : Attains rules (f ()) (change w) test) :
    Attains rules (modify change >>= f) w test := rest

theorem modify {change : World π → World π} (passes : test (change w)) :
    Attains rules (modify change : Act π Unit) w test := by
  simpa [Attains] using passes

theorem entity_bind {f : Entity π → Act π α} (rest : Attains rules (f w.entity) w test) :
    Attains rules (Act.entity >>= f) w test := rest

theorem modifyEntity_bind {change : Entity π → Entity π} {f : Unit → Act π α}
    (rest : Attains rules (f ()) { w with entity := change w.entity } test) :
    Attains rules (Act.modifyEntity change >>= f) w test := rest

theorem record_bind {mark : Entity π → Occurrence π} {f : Unit → Act π α}
    (rest : Attains rules (f ()) { w with trace := mark w.entity :: w.trace } test) :
    Attains rules (Act.record mark >>= f) w test := rest

end Attains

/-! ### Reactions -/

theorem Guards.request (guards : Guards rules nested) {r : Request π} (due : Due rules settingNone r)
    (guarded : w.Guarded rules []) :
    Attains rules (nested r) w (World.Since rules True w.trace) := by
  cases due with
  | announce stat =>
      refine (guards.announces stat w guarded).mono fun w' since => ?_
      obtain ⟨guarded', happened, grown, balanced⟩ := since
      refine ⟨guarded', happened ++ [.statChanged stat w.entity], ?_, ?_⟩
      · rw [grown, List.append_assoc]
        rfl
      · exact balanced.append (.tell rfl (fun _ => rfl) .nil)
  | @run hook script starts may =>
      have other : ∀ stat, hook ≠ .modified stat := may.resolve_left id
      refine (guards.runs starts w ((World.guarded_ahead other).2 guarded) ?_).mono
        fun w' ran => ran.since other
      exact fun stat same => absurd same (other stat)

theorem Stride.since (guards : Guards rules nested) {before : List (Occurrence π)} {w' : World π}
    (stride : Stride rules nested settingNone w w') (since : w.Since rules True before) :
    w'.Since rules True before := by
  refine since.trans ?_
  have guarded := since.guarded
  cases stride with
  | change discreet =>
      obtain ⟨tidy, leaves⟩ := discreet guarded.tidy
      have same := leaves.modifying.resolve_left id
      exact .refl (guarded.change tidy (same.trans guarded.modifying))
  | tell o plain seen =>
      refine ⟨guarded.tell_plain plain seen, [o], rfl, ?_⟩
      exact .tell (Occurrence.isOfHook_of_plain plain) (fun _ => plain) .nil
  | request due served => exact (guards.request due guarded).1 () w' served

/-- On a path where no stat is set no modified hook starts by itself. -/
theorem Paved.attains (guards : Guards rules nested) {m : Act π α}
    (paved : Paved rules nested settingNone m) (guarded : w.Guarded rules []) :
    Attains rules m w (World.Since rules True w.trace) := by
  have along {w₁ : World π} (path : Path rules nested settingNone w w₁) :
      w₁.Since rules True w.trace :=
    path.keeps _ (fun _ _ stride since => stride.since guards since) (.refl guarded)
  constructor
  · intro a w' returns
    have arrives := paved w
    rw [returns] at arrives
    exact along arrives
  · intro f w' fails
    have arrives := paved w
    rw [fails] at arrives
    obtain ⟨w₁, path, stops⟩ := arrives
    have guarded₁ := (along path).guarded
    cases stops with
    | overflow effect => exact guarded₁.heedful
    | request due fails => exact (guards.request due guarded₁).2 f w' fails

/-! ### Setting stats -/

/-- The modified hook of a stat that does not run runs once. -/
theorem runModified_attains (guards : Guards rules nested) {stat : StatName}
    {hook : StatName → Script π Unit} (registered : rules.modifiedHooks.get? stat = some hook)
    (guarded : w.Guarded rules []) (idle : .modified stat ∉ w.running) :
    Attains rules (do
        Act.modifyEntity fun e : Entity π => { e with modifying := stat :: e.modifying }
        nested (.run (.modified stat) (hook stat))
        Act.modifyEntity fun e => { e with modifying := e.modifying.filter (· ≠ stat) }) w
      fun w' => w'.Guarded rules [] ∧ ∃ run, w'.trace = run ++ w.trace ∧
        RunsOnce rules stat w.trace run := by
  have modifying : stat :: w.entity.modifying = modifiedStats ([.modified stat] ++ w.running) :=
    congrArg (stat :: ·) guarded.modifying
  have before := guarded.change (e := { w.entity with modifying := stat :: w.entity.modifying })
    { guarded.tidy with } modifying
  refine .modifyEntity_bind (.bind (guards.runs (.modified registered) _ before fun _ _ => idle)
    fun _ w₁ ran => ?_)
  obtain ⟨guarded₁, inside, start, finish, whole, grown⟩ := ran
  have run : RunsOnce rules stat w.trace
      (.hookEnded (.modified stat) finish :: (inside ++ [.hookStarted (.modified stat) start])) :=
    .run registered (guarded.running ▸ idle) whole
  have grown' : w₁.trace = .hookEnded (.modified stat) finish ::
      (inside ++ [.hookStarted (.modified stat) start]) ++ w.trace := by
    rw [grown, List.cons_append, List.append_assoc]
    rfl
  have still : w₁.running = w.running := by
    rw [guarded₁.running, guarded.running, grown', run.balanced.openHooks_append]
  -- The stat that is taken away again was not there before the hook started.
  have absent : stat ∉ modifiedStats w₁.running := fun listed =>
    idle (still ▸ mem_modifiedStats.1 listed)
  have left : w₁.entity.modifying.filter (· ≠ stat) = modifiedStats ([] ++ w₁.running) := by
    rw [guarded₁.modifying]
    change List.filter _ (stat :: modifiedStats w₁.running) = modifiedStats w₁.running
    rw [List.filter_cons_of_neg (by simp), List.filter_eq_self]
    intro other listed
    exact decide_eq_true fun same => absent (same ▸ listed)
  have after := guarded₁.change
    (e := { w₁.entity with modifying := w₁.entity.modifying.filter (· ≠ stat) })
    { guarded₁.tidy with } left
  exact .modify ⟨after, _, grown', run⟩

/-- A stat whose value is stored is announced, and then its modified hook runs once. -/
theorem statModified_attains (guards : Guards rules nested) (stat : StatName)
    {test : StatValue → Prop} (stored : test (rules.stat w.entity stat))
    (guarded : w.Guarded rules []) :
    Attains rules (statModified nested rules stat) w fun w' => w'.Guarded rules [] ∧
      ∃ happened, w'.trace = happened ++ w.trace ∧ SetRun rules stat test w.trace happened := by
  unfold statModified
  refine .bind (guards.announces stat w guarded) fun _ w₁ announced => ?_
  obtain ⟨guarded₁, reactions, grown, reacts⟩ := announced
  have same : openHooks w₁.trace = openHooks w.trace := by
    rw [grown, reacts.openHooks_append]
    rfl
  have done {run : List (Occurrence π)} {w' : World π} (guarded' : w'.Guarded rules [])
      (grown' : w'.trace = run ++ w₁.trace) (runs : RunsOnce rules stat w.trace run) :
      w'.Guarded rules [] ∧ ∃ happened, w'.trace = happened ++ w.trace ∧
        SetRun rules stat test w.trace happened := by
    refine ⟨guarded', run ++ (reactions ++ [.statChanged stat w.entity]), ?_,
      run, reactions, w.entity, rfl, stored, reacts, runs⟩
    rw [grown', grown]
    simp
  cases registered : rules.modifiedHooks.get? stat with
  | none => exact .pure () (done guarded₁ rfl (.unregistered registered))
  | some hook =>
      refine .entity_bind ?_
      split
      · rename_i free
        have idle : .modified stat ∉ w₁.running := fun runs => by
          rw [guarded₁.modifying] at free
          exact free (mem_modifiedStats.2 runs)
        refine (runModified_attains guards registered guarded₁ idle).mono fun w' ran => ?_
        obtain ⟨guarded', run, grown', runs⟩ := ran
        exact done guarded' grown' (runs.of_same same)
      · rename_i taken
        rw [not_not, guarded₁.modifying] at taken
        have busy : .modified stat ∈ openHooks w.trace := by
          rw [← same, ← guarded₁.running]
          exact mem_modifiedStats.1 taken
        exact .pure () (done guarded₁ rfl (.busy busy))

/-- The value of a stat is stored first. -/
theorem setStat_attains (guards : Guards rules nested) (stat : StatName)
    (change : StatValue → StatValue) (test : StatValue → Prop) (passes : ∀ v, test (change v))
    (guarded : w.Guarded rules []) :
    Attains rules (setStat nested rules stat change) w fun w' => w'.Guarded rules [] ∧
      ∃ happened, w'.trace = happened ++ w.trace ∧ SetRun rules stat test w.trace happened := by
  have stored : test (rules.stat { w.entity with
      values := w.entity.values.insert stat (change (rules.stat w.entity stat)) } stat) := by
    unfold Rulebook.stat
    rw [Table.get?_insert, if_pos rfl]
    exact passes _
  refine .modifyEntity_bind (statModified_attains guards stat stored ?_)
  exact { guarded with tidy := { guarded.tidy with } }

/-! ### Calls and scripts -/

variable [CustomTrigger π]

/-- A call that sets no stat goes a path. -/
theorem performWith_attains_of_not_sets (guards : Guards rules nested) {c : Call π} (other : ¬c.Sets)
    (guarded : w.Guarded rules []) :
    Attains rules (performWith nested rules c) w (w.Made rules c) := by
  have paved : Paved rules nested settingNone (performWith nested rules c) :=
    performWith_paved c (fun _ _ => trivial) other
  refine (paved.attains guards guarded).mono fun w' since => ?_
  obtain ⟨guarded', happened, grown, balanced⟩ := since
  refine ⟨guarded', happened, grown, balanced.weaken, fun stat test stores => absurd ?_ other⟩
  cases stores with
  | base => trivial
  | current => trivial

theorem performWith_attains (guards : Guards rules nested) (c : Call π)
    (guarded : w.Guarded rules []) :
    Attains rules (performWith nested rules c) w (w.Made rules c) := by
  cases c with
  | setBase stat value =>
      have set := setStat_attains guards stat (fun v => { v with base := value })
        (fun stored => stored.base = value) (fun _ => rfl) guarded
      exact set.mono fun w' ⟨guarded', happened, grown, run⟩ =>
        ⟨guarded', happened, grown, run.balanced, fun _ _ (.base ..) => run⟩
  | setCurrent stat value =>
      have set := setStat_attains guards stat (fun v => { v with current := value })
        (fun stored => stored.current = value) (fun _ => rfl) guarded
      exact set.mono fun w' ⟨guarded', happened, grown, run⟩ =>
        ⟨guarded', happened, grown, run.balanced, fun _ _ (.current ..) => run⟩
  | _ => exact performWith_attains_of_not_sets guards id guarded

/-- What a script does between its start and its end is balanced. -/
theorem runScriptWith_attains (guards : Guards rules nested) (script : Script π α)
    (guarded : w.Guarded rules []) (resumes : Resumes w.trace) :
    Attains rules (runScriptWith nested rules script) w (World.Since rules False w.trace) := by
  induction script generalizing w with
  | done result => exact .pure result (.refl guarded)
  | call c next ih =>
      refine .bind (performWith_attains guards c guarded) fun reply w₁ made => ?_
      have heeds : Occurrence.Heeds rules w₁.trace (.called c reply w₁.entity) := by
        refine ⟨nofun, nofun, ?_, ?_⟩
        · rintro stat test ⟨_, _, stores⟩
          obtain ⟨-, happened, grown, -, sets⟩ := made
          exact ⟨happened, w.trace, grown, resumes, sets stat test stores⟩
        · exact made.guarded.shows (Occurrence.shows_of_seen rfl)
      have told : World.Since rules False w₁.trace
          { w₁ with trace := .called c reply w₁.entity :: w₁.trace } :=
        ⟨made.guarded.tell rfl heeds, [.called c reply w₁.entity], rfl, .tell rfl False.elim .nil⟩
      refine .record_bind ((ih reply told.guarded trivial).mono fun w' later => ?_)
      exact made.since.trans (told.trans later)
  | look next ih => exact ih _ guarded resumes
  | note answer next ih =>
      have heeds : Occurrence.Heeds rules w.trace (.noted answer) := ⟨nofun, nofun, nofun, nofun⟩
      have told : World.Since rules False w.trace { w with trace := .noted answer :: w.trace } :=
        ⟨guarded.tell rfl heeds, [.noted answer], rfl, .tell rfl False.elim .nil⟩
      exact .record_bind ((ih told.guarded trivial).mono fun w' later => told.trans later)

/-- A hook that does not run, or is no modified hook, runs whole. -/
theorem runHookScript_attains (guards : Guards rules nested) {hook : Hook} (script : Script π Unit)
    (guarded : w.Guarded rules [hook]) (idle : ∀ stat, hook = .modified stat → hook ∉ w.running) :
    Attains rules (runHookScript nested rules hook script) w (w.Ran rules hook) := by
  have starts : Occurrence.Heeds rules w.trace (.hookStarted hook w.entity) := by
    refine ⟨?_, nofun, nofun, guarded.shows (Occurrence.shows_of_seen rfl)⟩
    rintro stat seen ⟨⟩
    rw [← guarded.running]
    exact idle stat rfl
  have started : World.Guarded rules []
      { w with running := hook :: w.running, trace := .hookStarted hook w.entity :: w.trace } :=
    ⟨guarded.tidy, guarded.heedful.cons starts, congrArg (hook :: ·) guarded.running,
      guarded.modifying⟩
  refine .modify_bind (.record_bind ?_)
  refine .bind (runScriptWith_attains guards script started trivial) fun _ w₁ since => ?_
  obtain ⟨guarded₁, inside, grown, whole⟩ := since
  have running : w₁.running = hook :: openHooks w.trace := by
    rw [guarded₁.running, grown, whole.openHooks_append]
    rfl
  have ends : Occurrence.Heeds rules w₁.trace (.hookEnded hook w₁.entity) := by
    refine ⟨nofun, ?_, nofun, guarded₁.shows (Occurrence.shows_of_seen rfl)⟩
    rintro _ _ ⟨⟩
    exact ⟨openHooks w.trace, guarded₁.running.symm.trans running⟩
  refine .record_bind (.modify ⟨⟨guarded₁.tidy, guarded₁.heedful.cons ends, ?_, ?_⟩, inside,
    w.entity, w₁.entity, whole, congrArg (_ :: ·) grown⟩)
  · exact congrArg List.tail guarded₁.running
  · rw [guarded₁.modifying, running]
    rfl

/-- Requests are served so at every number of levels. -/
theorem serve_guards (levels : Nat) : Guards rules (serve rules levels) := by
  induction levels with
  | zero =>
      have fails {r : Request π} {w : World π} {ahead : List Hook} {test : World π → Prop}
          (guarded : w.Guarded rules ahead) : Attains rules (serve rules 0 r) w test := by
        simpa [Attains, serve] using guarded.heedful
      exact ⟨fun _ _ guarded => fails guarded, fun _ _ guarded _ => fails guarded⟩
  | succ levels ih =>
      refine ⟨fun stat w guarded => ?_, fun {hook script} _ w guarded idle => ?_⟩
      · have told : World.Guarded rules [] { w with trace := .statChanged stat w.entity :: w.trace } :=
          guarded.tell_plain rfl (Occurrence.shows_of_seen rfl)
        exact .record_bind ((observe_paved stat).attains ih told)
      · exact runHookScript_attains ih script guarded idle

theorem perform_attains (levels : Nat) (c : Call π) (guarded : w.Guarded rules []) :
    Attains rules (perform rules levels c) w (w.Made rules c) :=
  performWith_attains (serve_guards levels) c guarded

end Engine

/-- Between outermost calls no hook is open. -/
theorem Reached.guarded [CustomTrigger π] {rules : Rulebook π} {snapshots : Snapshot → Prop}
    {calls : Entity π → Call π → Prop} {w : World π} (reached : Reached rules snapshots calls w) :
    w.Guarded rules [] ∧ openHooks w.trace = [] := by
  have start (values : Table StatValue) :
      World.Guarded rules [] (.ofEntity { (Entity.new : Entity π) with values := values }) :=
    ⟨{ Entity.Tidy.new with }, .nil, rfl, rfl⟩
  induction reached with
  | new => exact ⟨start ∅, rfl⟩
  | @restored levels snapshot w _ restores =>
      have since := ((Engine.addParts_paved (fun _ => trivial) snapshot levels).attains
        (Engine.serve_guards levels) (start snapshot.stats)).1 _ _ restores
      exact ⟨since.guarded, since.openHooks⟩
  | @called levels w w' c reply _ _ returns ih =>
      obtain ⟨guarded, closed⟩ := ih
      have since := ((Engine.perform_attains levels c guarded).1 reply w' returns).since
      exact ⟨since.guarded, since.openHooks.trans closed⟩

end StatusEffects
