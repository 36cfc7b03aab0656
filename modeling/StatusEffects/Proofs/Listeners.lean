import StatusEffects.Proofs.Faults

/-!
What listeners read of the counts.

The listeners to a change of stacks are called before the effect is counted again, so the count that
they read for that one effect may be the earlier one. Every other count they read, and every count that
the other listeners read, is the sum of the active stacks, also while a call is under way that fails in
the end.
-/

set_option autoImplicit false

namespace StatusEffects

variable {π : Type} [CustomTrigger π] {rules : Rulebook π} {w : World π}

/-- Listeners read counts that are those of the active stacks; those who are told of the stacks of an
effect are told before that effect is counted. -/
def Occurrence.ReadsCounts : Occurrence π → Prop
  | .statChanged _ seen | .effectChanged _ seen => seen.CountedBut fun _ => False
  | .stacksChanged effect seen => seen.CountedBut (· = effect)
  | _ => True

omit [CustomTrigger π] in
theorem Occurrence.Capped.readsCounts {o : Occurrence π} (capped : o.Capped rules) :
    o.ReadsCounts := by
  cases o with
  | statChanged stat seen => exact capped.counted seen rfl
  | effectChanged effect seen => exact capped.counted seen rfl
  | stacksChanged effect seen => exact capped.counted seen rfl
  | _ => trivial

/-- Whenever listeners are called, the counts that they read are those of the active stacks, but for
the one effect whose stacks they are told of. So it has been between calls, and so it is until the next
call or the loading of a snapshot ends, whether or not it comes back. -/
theorem listeners_read_counts {snapshots : Snapshot → Prop} {calls : Entity π → Call π → Prop}
    (reached : Reached rules snapshots calls w) :
    (∀ o ∈ w.trace, o.ReadsCounts) ∧
    (∀ levels c, ∀ o ∈ (Act.left (Engine.perform rules levels c w)).trace, o.ReadsCounts) ∧
    ∀ snapshot levels, ∀ o ∈ (Act.left (Snapshot.restore rules levels snapshot)).trace,
      o.ReadsCounts := by
  obtain ⟨sound, -⟩ := reached.settled
  refine ⟨fun o member => (sound.trace o member).readsCounts, fun levels c o member => ?_,
    fun snapshot levels o member => ?_⟩
  · have careful : Careful rules (Engine.perform rules levels c) :=
      Engine.performWith_careful (Engine.serve_careful levels) c
    exact (careful.trace_left sound o member).readsCounts
  · have careful : Careful rules (snapshot.addParts rules levels).run :=
      Engine.addParts_careful snapshot levels
    exact (careful.trace_left (.start snapshot.stats) o member).readsCounts

/-- An effect with a modifier, whose hook takes a stack off again while the effect is being settled. -/
def fury : EffectDefinition Empty :=
  { rage with effect := "fury", modifiers := [.ofParts "attack" .add 5] }

def furyRules : Rulebook Empty :=
  ((do
    let rules ← Rulebook.builtin.registerEffect fury
    rules.registerEffect (.ofName "burn")).toOption).getD .builtin

def readsThree : Occurrence Empty → Bool
  | .statChanged _ seen => (seen.effects.get? "fury").any fun live => live.activeSum = 3
  | _ => false

/-- Two stacks are left after the hook, and one more comes while the modifier applies: listeners to the
stat read a count of three. -/
theorem fury_counted : ∃ (w : World Empty) (stat : StatName) (seen : Entity Empty)
    (live : LiveEffect Empty), Reached furyRules (fun _ => True) (fun _ _ => True) w ∧
      .statChanged stat seen ∈ w.trace ∧ seen.effects.get? "fury" = some live ∧
      live.activeSum = 3 ∧ live.count = 3 := by
  have made : ((Engine.performAll furyRules 6
      [.addStack "fury" (.ofValue 3) none, .addStack "fury" (.ofValue 1) none]
      (.ofEntity .new)).any fun w => w.trace.any readsThree) = true := by
    decide +kernel
  obtain ⟨w, run, checked⟩ := (Option.any_eq_true ..).1 made
  obtain ⟨o, member, passes⟩ := List.any_eq_true.1 checked
  have reached : Reached furyRules (fun _ => True) (fun _ _ => True) w :=
    Engine.reached_of_performAll .new (fun _ _ _ => trivial) run
  unfold readsThree at passes
  split at passes
  · rename_i stat seen
    obtain ⟨live, found, sum⟩ := (Option.any_eq_true ..).1 passes
    rw [decide_eq_true_eq] at sum
    have counts := (listeners_read_counts reached).1 _ member
    have count : live.count.toNat = live.activeSum := counts "fury" live id found
    refine ⟨w, stat, seen, live, reached, member, found, sum, UInt32.toNat_inj.1 ?_⟩
    rw [count, sum]
    rfl
  · cases passes

def readsNone : Occurrence Empty → Bool
  | .stacksChanged effect seen => effect = "burn" &&
      (seen.effects.get? "burn").any fun live => live.activeSum = 1 && live.count = 0
  | _ => false

/-- When the first stack of an effect joins, the listeners to its stacks read a count of zero. -/
theorem burn_not_counted : ∃ (w : World Empty) (seen : Entity Empty) (live : LiveEffect Empty),
    Reached furyRules (fun _ => True) (fun _ _ => True) w ∧ .stacksChanged "burn" seen ∈ w.trace ∧
      seen.effects.get? "burn" = some live ∧ live.activeSum = 1 ∧ live.count = 0 := by
  have made : ((Engine.performAll furyRules 6 [.addStack "burn" (.ofValue 1) none]
      (.ofEntity .new)).any fun w => w.trace.any readsNone) = true := by
    decide +kernel
  obtain ⟨w, run, checked⟩ := (Option.any_eq_true ..).1 made
  obtain ⟨o, member, passes⟩ := List.any_eq_true.1 checked
  have reached : Reached furyRules (fun _ => True) (fun _ _ => True) w :=
    Engine.reached_of_performAll .new (fun _ _ _ => trivial) run
  unfold readsNone at passes
  split at passes
  · rename_i effect seen
    rw [Bool.and_eq_true, decide_eq_true_eq] at passes
    obtain ⟨rfl, lives⟩ := passes
    obtain ⟨live, found, counts⟩ := (Option.any_eq_true ..).1 lives
    rw [Bool.and_eq_true, decide_eq_true_eq, decide_eq_true_eq] at counts
    exact ⟨w, seen, live, reached, member, found, counts⟩
  · cases passes

end StatusEffects
