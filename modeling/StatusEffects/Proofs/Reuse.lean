import StatusEffects.Proofs.CallPaths

/-!
Values that are used again.

Whatever comes back to a pool, and in whatever state, all that the pool hands out is as if it were made
anew. Of the values that came back those wait that were not used again.

The values of an entity come back in many ways: modifiers and stacks that end, are taken out, merged or
refused, and effects with all their stacks. Hooks take values out in the middle of it. After every step
the pools of the entity hold blank values only, and a call that fails half-way leaves them so too.
-/

set_option autoImplicit false

namespace StatusEffects

namespace Pool

variable {α : Type}

/-! ### Uses of a pool -/

inductive Use (α : Type) where
  | acquire
  | release (value : α)
  | acquireList
  | releaseList (list : List α)
deriving DecidableEq, Repr

inductive Handout (α : Type) where
  | value (value : α)
  | list (list : List α)
deriving DecidableEq, Repr

/-- The number of values that come back by a use, alone or in a list. -/
def Use.returned : Use α → Nat
  | .release _ => 1
  | .releaseList list => list.length
  | .acquire | .acquireList => 0

def Use.anew? (new : α) : Use α → Option (Handout α)
  | .acquire => some (.value new)
  | .acquireList => some (.list [])
  | .release _ | .releaseList _ => none

variable [Poolable α]

def Use.apply (p : Pool α) : Use α → Pool α
  | .acquire => p.acquire.2
  | .release value => p.release value
  | .acquireList => p.acquireList.2
  | .releaseList list => p.releaseList list

def Use.handout? (p : Pool α) : Use α → Option (Handout α)
  | .acquire => some (.value p.acquire.1)
  | .acquireList => some (.list p.acquireList.1)
  | .release _ | .releaseList _ => none

def Use.reused (p : Pool α) : Use α → Nat
  | .acquire => if p.isEmpty then 0 else 1
  | .release _ | .acquireList | .releaseList _ => 0

def after (p : Pool α) (uses : List (Use α)) : Pool α := uses.foldl Use.apply p

def handouts : Pool α → List (Use α) → List (Handout α)
  | _, [] => []
  | p, use :: rest => (use.handout? p).toList ++ (use.apply p).handouts rest

def reuses : Pool α → List (Use α) → Nat
  | _, [] => 0
  | p, use :: rest => use.reused p + (use.apply p).reuses rest

/-- However a new pool is used, it hands out what is new, and the values that came back wait except for
those that were used again. -/
def HandsOut (new : α) : Prop :=
  ∀ uses : List (Use α), empty.handouts uses = uses.filterMap (Use.anew? new) ∧
    (empty.after uses).size + empty.reuses uses = (uses.map Use.returned).sum

/-! ### How many values wait -/

theorem size_releaseList (p : Pool α) (list : List α) :
    (p.releaseList list).size = p.size + list.length := by
  change (list.foldl release p).size = _
  induction list generalizing p with
  | nil => rfl
  | cons value rest ih =>
      have one : (p.release value).size = p.size + 1 := rfl
      rw [List.foldl_cons, ih, one, List.length_cons]
      omega

theorem size_apply (p : Pool α) (use : Use α) :
    (use.apply p).size + use.reused p = p.size + use.returned := by
  cases use with
  | acquire =>
      obtain ⟨free, lists⟩ := p
      cases free with
      | nil => rfl
      | cons value rest => rfl
  | release value => rfl
  | acquireList =>
      obtain ⟨free, lists⟩ := p
      cases lists with
      | nil => rfl
      | cons list rest => rfl
  | releaseList list => exact size_releaseList p list

theorem size_after (p : Pool α) (uses : List (Use α)) :
    (p.after uses).size + p.reuses uses = p.size + (uses.map Use.returned).sum := by
  induction uses generalizing p with
  | nil => rfl
  | cons use rest ih =>
      have first := size_apply p use
      have later := ih (use.apply p)
      rw [reuses, List.map_cons, List.sum_cons]
      change ((use.apply p).after rest).size + _ = _
      omega

/-! ### What is handed out -/

variable {p : Pool α}

theorem Blank.handout? (blank : p.Blank) (use : Use α) :
    use.handout? p = use.anew? Poolable.blank := by
  cases use with
  | acquire => rw [Use.handout?, blank.acquire_fst, Use.anew?]
  | release value => rfl
  | acquireList => rw [Use.handout?, blank.acquireList_fst, Use.anew?]
  | releaseList list => rfl

section

variable (clears : ∀ value : α, Poolable.clear value = Poolable.blank)

include clears

theorem Blank.apply (blank : p.Blank) (use : Use α) : (use.apply p).Blank := by
  cases use with
  | acquire => exact blank.acquire_snd
  | release value => exact blank.release (clears value)
  | acquireList => exact blank.acquireList_snd
  | releaseList list => exact blank.releaseList clears list

theorem Blank.handouts (blank : p.Blank) (uses : List (Use α)) :
    p.handouts uses = uses.filterMap (Use.anew? Poolable.blank) := by
  induction uses generalizing p with
  | nil => rfl
  | cons use rest ih =>
      rw [Pool.handouts, blank.handout? use, ih (blank.apply clears use)]
      cases made : use.anew? Poolable.blank with
      | none =>
          rw [List.filterMap_cons_none made]
          rfl
      | some handout =>
          rw [List.filterMap_cons_some made]
          rfl

/-- A pool whose values are reset in every part hands out what is new. -/
theorem handsOut_of_clears : HandsOut (Poolable.blank : α) := by
  intro uses
  refine ⟨Blank.empty.handouts clears uses, ?_⟩
  rw [size_after]
  exact Nat.zero_add _

end

def worn : Stack Empty := ⟨3, .absent, 7, some "trap", true, true⟩

def shift : List (Use (Stack Empty)) :=
  [.acquire, .releaseList [worn, worn], .acquireList, .acquire]

example : (empty.after shift).size = 1 ∧ empty.reuses shift = 1 ∧
    empty.handouts shift = [.value Stack.blank, .list [], .value Stack.blank] := by
  decide

end Pool

/-! ### What hooks are handed -/

variable {π : Type}

/-- The reply of a call that takes a value out of a pool is new. -/
def Call.RepliesNew : (c : Call π) → c.Reply → Prop
  | .acquireModifier, m => m = Modifier.blank
  | .acquireStack, s => s = Stack.blank
  | _, _ => True

def Occurrence.HandsNew (o : Occurrence π) : Prop :=
  ∀ c reply seen, o = .called c reply seen → c.RepliesNew reply

theorem Occurrence.handsNew_called {c : Call π} {reply : c.Reply} {seen : Entity π} :
    (Occurrence.called c reply seen).HandsNew ↔ c.RepliesNew reply := by
  constructor
  · intro hands
    exact hands c reply seen rfl
  · rintro replies _ _ _ ⟨⟩
    exact replies

theorem Occurrence.handsNew_of_plain {o : Occurrence π} (plain : o.isOfScript = false) :
    o.HandsNew := by
  rintro c reply seen rfl
  cases plain

/-- The pools are in order with the rest of the entity, and hooks were handed what is new. -/
structure World.Clean (w : World π) : Prop where
  tidy : w.entity.Tidy
  handed : ∀ o ∈ w.trace, o.HandsNew

namespace World.Clean

variable {w : World π}

theorem start (values : Table StatValue) :
    (World.ofEntity { (Entity.new : Entity π) with values := values }).Clean :=
  ⟨{ Entity.Tidy.new with }, fun _ member => (List.not_mem_nil member).elim⟩

theorem change (clean : w.Clean) {e : Entity π} (tidy : e.Tidy) : Clean { w with entity := e } :=
  ⟨tidy, clean.handed⟩

theorem tell (clean : w.Clean) {o : Occurrence π} (hands : o.HandsNew) :
    Clean { w with trace := o :: w.trace } :=
  ⟨clean.tidy, List.forall_mem_cons.2 ⟨hands, clean.handed⟩⟩

end World.Clean

namespace Engine

open Act

def Cleanly {α : Type} (m : Act π α) : Prop := ∀ w : World π, w.Clean → (Act.left (m w)).Clean

variable {rules : Rulebook π} {nested : Nested π} {leeway : Leeway} {α β : Type}

namespace Cleanly

theorem pure (a : α) : Cleanly (Pure.pure a : Act π α) := fun _ clean => clean

theorem bind {m : Act π α} {f : α → Act π β} (first : Cleanly m) (second : ∀ a, Cleanly (f a)) :
    Cleanly (m >>= f) := by
  intro w clean
  have before := first w clean
  cases ends : m w with
  | ok a w₁ =>
      rw [ends] at before
      rw [bind_run ends]
      exact second a w₁ before
  | error fault w₁ =>
      rw [ends] at before
      rw [bind_fails ends]
      exact before

theorem record {mark : Entity π → Occurrence π} (plain : ∀ e, (mark e).HandsNew) :
    Cleanly (Act.record mark) :=
  fun w clean => clean.tell (plain w.entity)

theorem running (change : List Hook → List Hook) :
    Cleanly (modify fun w : World π => { w with running := change w.running } : Act π Unit) :=
  fun _ clean => ⟨clean.tidy, clean.handed⟩

end Cleanly

/-! ### Paths -/

section

variable (serves : ∀ r, Cleanly (nested r))

include serves

theorem Stride.clean {w w' : World π} (stride : Stride rules nested leeway w w') (clean : w.Clean) :
    w'.Clean := by
  cases stride with
  | change discreet => exact clean.change (discreet clean.tidy).1
  | tell o plain seen => exact clean.tell (Occurrence.handsNew_of_plain plain)
  | @request _ r due served =>
      have after := serves r w clean
      rw [served] at after
      exact after

/-- A step on a path leaves clean worlds, also where it is stopped. -/
theorem Paved.cleanly {m : Act π α} (paved : Paved rules nested leeway m) : Cleanly m := by
  intro w clean
  have along {w₁ : World π} (path : Path rules nested leeway w w₁) : w₁.Clean :=
    path.keeps World.Clean (fun _ _ stride => stride.clean serves) clean
  have arrives := paved w
  cases ends : m w with
  | ok a w' =>
      rw [ends] at arrives
      exact along arrives
  | error f w' =>
      rw [ends] at arrives
      obtain ⟨w₁, path, stops⟩ := arrives
      cases stops with
      | overflow effect => exact along path
      | @request _ _ _ r due fails =>
          have after := serves r w₁ (along path)
          rw [fails] at after
          exact after

end

/-! ### Calls and scripts -/

def anything : Leeway := ⟨fun _ => True, True⟩

variable [CustomTrigger π]

theorem performWith_cleanly (serves : ∀ r, Cleanly (nested r)) (c : Call π) :
    Cleanly (performWith nested rules c) :=
  have paved : Paved rules nested anything (performWith nested rules c) :=
    performWith_paved c (fun _ _ => trivial) fun _ => trivial
  paved.cleanly serves

/-- What a call replies was blank in the pool. -/
theorem performWith_repliesNew {w w' : World π} (clean : w.Clean) {c : Call π} {reply : c.Reply}
    (returns : performWith nested rules c w = .ok reply w') : c.RepliesNew reply := by
  cases c with
  | acquireModifier =>
      cases returns
      exact clean.tidy.acquireModifier_fst
  | acquireStack =>
      cases returns
      exact clean.tidy.acquireStack_fst
  | _ => trivial

/-- Whatever a script does, it is handed what is new. -/
theorem runScriptWith_cleanly (serves : ∀ r, Cleanly (nested r)) (script : Script π α) :
    Cleanly (runScriptWith nested rules script) := by
  induction script with
  | done result => exact .pure result
  | call c next ih =>
      -- What is recorded next holds the reply, which is new because the world before the call was clean.
      intro w clean
      have made : (Act.left (performWith nested rules c w)).Clean :=
        performWith_cleanly serves c w clean
      cases ends : performWith nested rules c w with
      | ok reply w₁ =>
          rw [ends] at made
          rw [runScriptWith, bind_run ends]
          have new := performWith_repliesNew clean ends
          exact ih reply _ (made.tell (Occurrence.handsNew_called.2 new))
      | error fault w₁ =>
          rw [ends] at made
          rw [runScriptWith, bind_fails ends]
          exact made
  | look next ih => exact fun w clean => ih _ w clean
  | note answer next ih =>
      refine .bind (.record fun _ => ?_) fun _ => ih
      rintro _ _ _ ⟨⟩

theorem runHookScript_cleanly (serves : ∀ r, Cleanly (nested r)) (hook : Hook)
    (script : Script π Unit) : Cleanly (runHookScript nested rules hook script) := by
  have started (e : Entity π) : (Occurrence.hookStarted hook e).HandsNew := by
    rintro _ _ _ ⟨⟩
  have ended (e : Entity π) : (Occurrence.hookEnded hook e).HandsNew := by
    rintro _ _ _ ⟨⟩
  refine .bind (.running (hook :: ·)) fun _ => ?_
  refine .bind (.record started) fun _ => ?_
  refine .bind (runScriptWith_cleanly serves script) fun _ => ?_
  exact .bind (.record ended) fun _ => .running List.tail

theorem serve_cleanly (levels : Nat) (r : Request π) : Cleanly (serve rules levels r) := by
  induction levels generalizing r with
  | zero => exact fun _ clean => clean
  | succ levels ih =>
      cases r with
      | announce stat =>
          have paved : Paved rules (serve rules levels) anything
              (announceStat (serve rules levels) rules stat) :=
            .bind (.record (fun _ => rfl) fun _ => rfl) fun _ => observe_paved stat
          exact paved.cleanly ih
      | run hook script => exact runHookScript_cleanly ih hook script

end Engine

/-! ### Runs -/

variable [CustomTrigger π] {rules : Rulebook π} {w : World π}

/-- The worlds that calls lead to, whether or not each of them comes back, of an entity that begins with
nothing on it or that is set up from a snapshot as far as that goes. -/
inductive Visited (rules : Rulebook π) : World π → Prop where
  | new : Visited rules (.ofEntity .new)
  | restored (levels : Nat) (snapshot : Snapshot) :
      Visited rules (Act.left (snapshot.restore rules levels))
  | called {w : World π} (before : Visited rules w) (levels : Nat) (c : Call π) :
      Visited rules (Act.left (Engine.perform rules levels c w))

/-- A run in which every call comes back is one of them. -/
theorem Reached.visited {snapshots : Snapshot → Prop} {calls : Entity π → Call π → Prop}
    (reached : Reached rules snapshots calls w) : Visited rules w := by
  induction reached with
  | new => exact .new
  | @restored levels snapshot w admitted restores =>
      have visited : Visited rules (Act.left (snapshot.restore rules levels)) := .restored levels snapshot
      rw [restores] at visited
      exact visited
  | @called levels w w' c reply before admitted returns ih =>
      have visited := ih.called levels c
      rw [returns] at visited
      exact visited

theorem Visited.clean (visited : Visited rules w) : w.Clean := by
  induction visited with
  | new => exact .start ∅
  | restored levels snapshot =>
      have paved : Engine.Paved rules (Engine.serve rules levels) Engine.anything
          (snapshot.addParts rules levels).run :=
        Engine.addParts_paved (fun _ => trivial) snapshot levels
      exact paved.cleanly (Engine.serve_cleanly levels) _ (.start snapshot.stats)
  | called before levels c ih =>
      exact Engine.performWith_cleanly (Engine.serve_cleanly levels) c _ ih

/-- However pools of modifiers, stacks and effects are used, every value they hand out is new in every
part, every list is empty, and as many values wait as came back less those that were used again. So
whatever calls and hooks have done to an entity, and whether or not every call came back, only new values
wait in its pools, a call that takes one comes back with a new one, and so did every such call of a
hook. -/
theorem pooled_values_are_new (π : Type) [CustomTrigger π] :
    Pool.HandsOut (Modifier.blank : Modifier π) ∧ Pool.HandsOut (Stack.blank : Stack π) ∧
    Pool.HandsOut (LiveEffect.blank : LiveEffect π) ∧
    ∀ (rules : Rulebook π) (w : World π), Visited rules w →
      w.entity.modifierPool.Blank ∧ w.entity.stackPool.Blank ∧ w.entity.effectPool.Blank ∧
      (∀ levels, ∃ w', Engine.perform rules levels .acquireModifier w = .ok Modifier.blank w') ∧
      (∀ levels, ∃ w', Engine.perform rules levels .acquireStack w = .ok Stack.blank w') ∧
      (∀ m seen, .called .acquireModifier m seen ∈ w.trace → m = Modifier.blank) ∧
      ∀ s seen, .called .acquireStack s seen ∈ w.trace → s = Stack.blank := by
  refine ⟨Pool.handsOut_of_clears fun _ => rfl, Pool.handsOut_of_clears fun _ => rfl,
    Pool.handsOut_of_clears fun _ => rfl, fun rules w visited => ?_⟩
  have clean := visited.clean
  have tidy := clean.tidy
  refine ⟨tidy.modifierPool, tidy.stackPool, tidy.effectPool, fun levels => ?_, fun levels => ?_,
    fun m seen member => Occurrence.handsNew_called.1 (clean.handed _ member),
    fun s seen member => Occurrence.handsNew_called.1 (clean.handed _ member)⟩
  · refine ⟨{ w with entity := w.entity.acquireModifier.2 }, ?_⟩
    rw [← tidy.acquireModifier_fst]
    rfl
  · refine ⟨{ w with entity := w.entity.acquireStack.2 }, ?_⟩
    rw [← tidy.acquireStack_fst]
    rfl

/-- An effect that takes a stack and a modifier from the pools when it begins to apply, and then counts
too much. -/
def forge : EffectDefinition Empty :=
  { EffectDefinition.ofName "forge" with
    onActivate := some fun effect => do
      let _ ← Script.request .acquireStack
      let _ ← Script.request .acquireModifier
      let _ ← Script.request (.addStack effect (.ofValue 4294967295) (some "bellows")) }

def forgeRules : Rulebook Empty :=
  ((do
    let rules ← Rulebook.builtin.registerEffect forge
    rules.registerEffect (.ofName "ward")).toOption).getD .builtin

/-- A modifier and a stack that had owners wait. A hook takes both in a call that fails in the end. -/
theorem forge_handed_new : ∃ (w w' : World Empty) (effect : EffectName) (s : Stack Empty)
    (seen : Entity Empty), Visited forgeRules w ∧
      w.entity.modifierPool.size = 1 ∧ w.entity.stackPool.size = 1 ∧
      (∃ w₁, Engine.perform forgeRules 6 .acquireModifier w = .ok Modifier.blank w₁) ∧
      Engine.perform forgeRules 6 (.addStack "forge" (.ofValue 2) (some "smith")) w =
        .error (.countOverflow effect) w' ∧
      w'.entity.modifierPool.size = 0 ∧ w'.entity.stackPool.size = 0 ∧
      .called .acquireStack s seen ∈ w'.trace ∧ s = Stack.blank ∧
      Pool.empty.handouts Pool.shift = [.value Stack.blank, .list [], .value Stack.blank] ∧
      (Pool.empty.after Pool.shift).size + 1 = 2 := by
  have made : ((Engine.performAll forgeRules 6
      [.addModifier (.ofParts "attack" .add 5) (some "sword"), .removeModifiersOf "sword",
        .addStack "ward" (.ofValue 3) (some "trap"), .removeStacksOf "ward" "trap"]
      (.ofEntity .new)).any fun w =>
        (w.entity.modifierPool.size = 1 && w.entity.stackPool.size = 1) &&
        match Engine.perform forgeRules 6 (.addStack "forge" (.ofValue 2) (some "smith")) w with
        | .error (.countOverflow _) w' =>
          (w'.entity.modifierPool.size = 0 && w'.entity.stackPool.size = 0) &&
            w'.trace.any fun | .called .acquireStack _ _ => true | _ => false
        | _ => false) = true := by
    decide +kernel
  obtain ⟨w, run, checked⟩ := (Option.any_eq_true ..).1 made
  rw [Bool.and_eq_true, Bool.and_eq_true, decide_eq_true_eq, decide_eq_true_eq] at checked
  obtain ⟨⟨oneModifier, oneStack⟩, fails⟩ := checked
  have reached : Reached forgeRules (fun _ => True) (fun _ _ => True) w :=
    Engine.reached_of_performAll .new (fun _ _ _ => trivial) run
  split at fails
  · rename_i effect w' ends
    rw [Bool.and_eq_true, Bool.and_eq_true, decide_eq_true_eq, decide_eq_true_eq] at fails
    obtain ⟨⟨noModifier, noStack⟩, taken⟩ := fails
    obtain ⟨o, member, takes⟩ := List.any_eq_true.1 taken
    have failed := reached.visited.called 6 (.addStack "forge" (.ofValue 2) (some "smith"))
    rw [ends] at failed
    obtain ⟨-, pooled, -, runs⟩ := pooled_values_are_new Empty
    obtain ⟨-, -, -, modifier, -⟩ := runs forgeRules w reached.visited
    obtain ⟨-, -, -, -, -, -, handed⟩ := runs forgeRules w' failed
    split at takes
    · rename_i s seen
      exact ⟨w, w', effect, s, seen, reached.visited, oneModifier, oneStack, modifier 6, ends,
        noModifier, noStack, member, handed s seen member, pooled Pool.shift⟩
    · cases takes
  · cases fails

end StatusEffects
