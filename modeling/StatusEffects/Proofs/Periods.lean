import StatusEffects.Proofs.CustomEffectCalls
import StatusEffects.Proofs.Subscriptions
import StatusEffects.Proofs.Sweep

/-!
When the actions of custom effects start.

An action starts directly after every event that changes some result of its condition and leaves the
whole condition met. In a condition without `or` branches such a result was not met before, so between
two starts the condition was unmet. With an `or` branch another result may change while the condition
stays met, and then the action starts again.
-/

set_option autoImplicit false

namespace StatusEffects

variable {π : Type}

/-! ### Trees without `or` branches -/

namespace Condition

def isChain : Condition π → Bool
  | .absent => true
  | .node _ next alternative => alternative.isAbsent && next.isChain

/-- Whether there are `or` branches is a matter of the form. -/
theorem isChain_of_frame {c c' : Condition π} (same : c'.frame = c.frame) (chain : c.isChain = true) :
    c'.isChain = true := by
  induction c generalizing c' with
  | absent =>
      cases c' with
      | absent => rfl
      | node head next alternative => cases same
  | node head next alternative ihNext _ =>
      cases c' with
      | absent => cases same
      | node head' next' alternative' =>
          unfold frame chart at same
          obtain ⟨-, left, right⟩ := (BinaryTree.node.injEq ..).mp same
          rw [isChain, Bool.and_eq_true] at chain ⊢
          refine ⟨?_, ihNext left chain.2⟩
          cases alternative with
          | absent =>
              cases alternative' with
              | absent => rfl
              | node _ _ _ => cases right
          | node _ _ _ => cases chain.1

/-- Where a result has changed and now the whole chain is met, the chain was not met before. -/
theorem unmet_of_sweep {change : Node π → Node π} {c : Condition π} (chain : c.isChain = true)
    (changed : (c.sweep change).2 = true) {ifAbsent : Bool}
    (met : (c.sweep change).1.verdict false ifAbsent = true) :
    c.verdict false ifAbsent = false := by
  induction c generalizing ifAbsent with
  | absent => cases changed
  | node head next alternative ihNext _ =>
      rw [isChain, Bool.and_eq_true] at chain
      obtain ⟨single, chain⟩ := chain
      cases alternative with
      | node _ _ _ => cases single
      | absent =>
          rw [sweep] at changed met
          split at changed
          · rename_i armed
            rw [if_pos armed, verdict] at met
            have passes : (change head).passes false = true := by
              by_contra fails
              rw [if_neg fails] at met
              cases met
            rw [if_pos passes] at met
            rw [verdict]
            by_cases root : head.passes false = true
            · rw [if_pos root]
              refine ihNext chain ?_ met
              have stays : (change head).met = head.met := by
                simp only [Node.passes, Bool.and_false, Bool.not_false, Bool.and_true] at passes root
                rw [passes, root]
              have others : (absent.sweep change).2 = false := rfl
              rwa [stays, bne_self_eq_false, Bool.false_or, others, Bool.or_false] at changed
            · rw [if_neg root]
              rfl
          · cases changed

end Condition

namespace Engine.Stimulus

variable [CustomTrigger π] {stimulus : Stimulus} {r : Readings} {c : Condition π}

theorem frame_apply (stimulus : Stimulus) (r : Readings) (c : Condition π) :
    (apply stimulus r c).1.frame = c.frame := by
  cases stimulus with
  | time delta =>
      change (c.tick delta r).1.frame = _
      rw [Condition.tick_eq_sweep]
      exact Condition.chart_sweep (Node.flags_elapse delta r) c
  | stat name =>
      change (c.observe name r).1.frame = _
      rw [Condition.observe_eq_sweep]
      exact Condition.chart_sweep (Node.flags_notice name r) c
  | restart =>
      change (c.restart r).frame = _
      rw [Condition.restart_eq_map]
      exact Condition.chart_map (Node.flags_restart r) c

end Engine.Stimulus

open Engine

variable [CustomTrigger π]

/-- An event only sets off the action of a chain that was not met before. -/
theorem Stimulus.SetsOff.unmet {stimulus : Stimulus} {r : Readings} {c : Condition π}
    (setsOff : stimulus.SetsOff r c) (chain : c.isChain = true) : c.holds false = false := by
  obtain ⟨told, changed, met⟩ := setsOff
  cases stimulus with
  | time delta =>
      change (c.tick delta r).2 = true at changed
      change (c.tick delta r).1.holds false = true at met
      rw [Condition.tick_eq_sweep] at changed met
      exact Condition.unmet_of_sweep chain changed met
  | stat name =>
      change (c.observe name r).2 = true at changed
      change (c.observe name r).1.holds false = true at met
      rw [Condition.observe_eq_sweep] at changed met
      exact Condition.unmet_of_sweep chain changed met
  | restart => exact absurd rfl told

/-- An event after which a condition is met that was not met before sets off the action. -/
theorem Stimulus.SetsOff.of_unmet {stimulus : Stimulus} {r : Readings} {c : Condition π}
    (told : stimulus ≠ .restart) (before : c.holds false = false)
    (met : (Engine.Stimulus.apply stimulus r c).1.holds false = true) : stimulus.SetsOff r c := by
  refine ⟨told, ?_, met⟩
  by_contra unchanged
  rw [holds_apply told (Bool.eq_false_iff.2 unchanged), before] at met
  cases met

/-! ### Events and starts in a trace -/

def Occurrence.left? (owner : Owner) : Occurrence π → Option (Condition π)
  | .stimulated other _ left _ => if other = owner then some left else none
  | _ => none

omit [CustomTrigger π] in
theorem Occurrence.left?_stimulated (owner : Owner) (stimulus : Stimulus) (left : Condition π)
    (seen : Entity π) : (Occurrence.stimulated owner stimulus left seen).left? owner = some left :=
  if_pos rfl

def lastLeft? (owner : Owner) (trace : List (Occurrence π)) : Option (Condition π) :=
  trace.findSome? (Occurrence.left? owner)

/-- An occurrence tells neither of an event in the condition of a custom effect nor of a start of its
action. -/
structure Occurrence.Elsewhere (effect : EffectName) (serial : Handle) (index : Nat)
    (o : Occurrence π) : Prop where
  left : o.left? (.custom effect serial index) = none
  start : ∀ seen, o ≠ .hookStarted (.custom effect serial index) seen

/-- An event changed the condition of a custom effect as the event before it had left it. -/
structure Event (rules : Rulebook π) (effect : EffectName) (serial : Handle) (index : Nat)
    (stimulus : Stimulus) (r : Readings) (c left : Condition π) (before : List (Occurrence π)) :
    Prop where
  known : ∃ d custom, rules.effects.get? effect = some d ∧ d.customEffects[index]? = some custom ∧
    c.frame = custom.condition.frame
  left : (Engine.Stimulus.apply stimulus r c).1 = left
  before : ∀ earlier, lastLeft? (.custom effect serial index) before = some earlier → earlier = c

def Answered (effect : EffectName) (serial : Handle) (index : Nat) (later : List (Occurrence π)) :
    Prop :=
  ∃ since seen, later = since ++ [.hookStarted (.custom effect serial index) seen]

/-- The action of a custom effect starts directly after the events that set it off. Unless all goes on
strictly, such an event may be left behind without its action. -/
structure Recorded (rules : Rulebook π) (strict : Prop) (effect : EffectName) (serial : Handle)
    (index : Nat) (trace : List (Occurrence π)) : Prop where
  events : ∀ later stimulus left seen earlier,
    trace = later ++ .stimulated (.custom effect serial index) stimulus left seen :: earlier →
      ∃ r c, Event rules effect serial index stimulus r c left earlier ∧
        (strict → stimulus.SetsOff r c → Answered effect serial index later)
  starts : ∀ later seen earlier,
    trace = later ++ .hookStarted (.custom effect serial index) seen :: earlier →
      ∃ stimulus r c left seen' before,
        earlier = .stimulated (.custom effect serial index) stimulus left seen' :: before ∧
          Event rules effect serial index stimulus r c left before ∧ stimulus.SetsOff r c

section

variable {rules : Rulebook π} {strict : Prop} {effect : EffectName} {serial : Handle} {index : Nat}
  {trace : List (Occurrence π)} {o : Occurrence π}

omit [CustomTrigger π] in
theorem Occurrence.Elsewhere.of_plain (plain : o.isCustom = false) :
    o.Elsewhere effect serial index := by
  refine ⟨?_, fun seen same => ?_⟩
  · unfold Occurrence.left?
    split
    · rename_i other stimulus left seen
      split
      · rename_i same
        subst same
        cases plain
      · rfl
    · rfl
  · subst same
    cases plain

omit [CustomTrigger π] in
theorem Occurrence.Elsewhere.stimulated {owner : Owner} (other : owner ≠ .custom effect serial index)
    (stimulus : Stimulus) (left : Condition π) (seen : Entity π) :
    (Occurrence.stimulated owner stimulus left seen).Elsewhere effect serial index :=
  ⟨if_neg other, nofun⟩

omit [CustomTrigger π] in
theorem Occurrence.Elsewhere.hookStarted {hook : Hook} (other : hook ≠ .custom effect serial index)
    (seen : Entity π) : (Occurrence.hookStarted hook seen).Elsewhere effect serial index := by
  refine ⟨rfl, fun seen' same => other ?_⟩
  cases same
  rfl

omit [CustomTrigger π] in
theorem Occurrence.Elsewhere.lastLeft? (elsewhere : o.Elsewhere effect serial index) :
    lastLeft? (.custom effect serial index) (o :: trace) =
      StatusEffects.lastLeft? (.custom effect serial index) trace := by
  unfold StatusEffects.lastLeft?
  rw [List.findSome?_cons, elsewhere.left]

omit [CustomTrigger π] in
theorem lastLeft?_stimulated (owner : Owner) (stimulus : Stimulus) (left : Condition π)
    (seen : Entity π) (trace : List (Occurrence π)) :
    lastLeft? owner (.stimulated owner stimulus left seen :: trace) = some left := by
  unfold lastLeft?
  rw [List.findSome?_cons, Occurrence.left?_stimulated]

omit [CustomTrigger π] in
theorem Answered.cons {later : List (Occurrence π)} (answered : Answered effect serial index later)
    (o : Occurrence π) : Answered effect serial index (o :: later) := by
  obtain ⟨since, seen, rfl⟩ := answered
  exact ⟨o :: since, seen, rfl⟩

namespace Recorded

theorem nil : Recorded rules strict effect serial index ([] : List (Occurrence π)) :=
  ⟨fun _ _ _ _ _ split => absurd split.symm (by simp), fun _ _ _ split => absurd split.symm (by simp)⟩

/-- What happens elsewhere changes nothing. -/
theorem elsewhere (recorded : Recorded rules strict effect serial index trace)
    (elsewhere : o.Elsewhere effect serial index) :
    Recorded rules strict effect serial index (o :: trace) := by
  refine ⟨fun later stimulus left seen earlier split => ?_, fun later seen earlier split => ?_⟩
  · rcases List.cons_eq_append_iff.1 split with ⟨rfl, same⟩ | ⟨since, rfl, same⟩
    · cases same
      have nothing := elsewhere.left
      rw [Occurrence.left?_stimulated] at nothing
      cases nothing
    · obtain ⟨r, c, event, answered⟩ := recorded.events since stimulus left seen earlier same
      exact ⟨r, c, event, fun asked setsOff => (answered asked setsOff).cons o⟩
  · rcases List.cons_eq_append_iff.1 split with ⟨rfl, same⟩ | ⟨since, rfl, same⟩
    · cases same
      exact absurd rfl (elsewhere.start seen)
    · exact recorded.starts since seen earlier same

theorem append {happened : List (Occurrence π)}
    (recorded : Recorded rules strict effect serial index trace)
    (others : ∀ o ∈ happened, o.Elsewhere effect serial index) :
    Recorded rules strict effect serial index (happened ++ trace) := by
  induction happened with
  | nil => exact recorded
  | cons o rest ih =>
      obtain ⟨first, others⟩ := List.forall_mem_cons.1 others
      exact (ih others).elsewhere first

/-- An event goes through the condition and leaves nothing to be done. -/
theorem event {stimulus : Stimulus} {r : Readings} {c left : Condition π}
    (recorded : Recorded rules strict effect serial index trace)
    (event : Event rules effect serial index stimulus r c left trace)
    (idle : strict → ¬stimulus.SetsOff r c) (seen : Entity π) :
    Recorded rules strict effect serial index
      (.stimulated (.custom effect serial index) stimulus left seen :: trace) := by
  refine ⟨fun later stimulus' left' seen' earlier split => ?_, fun later seen' earlier split => ?_⟩
  · rcases List.cons_eq_append_iff.1 split with ⟨rfl, same⟩ | ⟨since, rfl, same⟩
    · cases same
      exact ⟨r, c, event, fun asked setsOff => absurd setsOff (idle asked)⟩
    · obtain ⟨r', c', event', answered⟩ := recorded.events since stimulus' left' seen' earlier same
      exact ⟨r', c', event', fun asked setsOff => (answered asked setsOff).cons _⟩
  · rcases List.cons_eq_append_iff.1 split with ⟨rfl, same⟩ | ⟨since, rfl, same⟩
    · cases same
    · exact recorded.starts since seen' earlier same

/-- An event goes through the condition and sets off the action. -/
theorem fire {stimulus : Stimulus} {r : Readings} {c left : Condition π}
    (recorded : Recorded rules strict effect serial index trace)
    (event : Event rules effect serial index stimulus r c left trace)
    (setsOff : stimulus.SetsOff r c) (seen seen' : Entity π) :
    Recorded rules strict effect serial index
      (.hookStarted (.custom effect serial index) seen' ::
        .stimulated (.custom effect serial index) stimulus left seen :: trace) := by
  refine ⟨fun later stimulus' left' other earlier split => ?_, fun later other earlier split => ?_⟩
  · rcases List.cons_eq_append_iff.1 split with ⟨rfl, same⟩ | ⟨since, rfl, same⟩
    · cases same
    · rcases List.cons_eq_append_iff.1 same with ⟨rfl, last⟩ | ⟨since', rfl, past⟩
      · cases last
        exact ⟨r, c, event, fun _ _ => ⟨[], seen', rfl⟩⟩
      · obtain ⟨r', c', event', answered⟩ := recorded.events since' stimulus' left' other earlier past
        exact ⟨r', c', event', fun asked setsOff => ((answered asked setsOff).cons _).cons _⟩
  · rcases List.cons_eq_append_iff.1 split with ⟨rfl, same⟩ | ⟨since, rfl, same⟩
    · cases same
      exact ⟨stimulus, r, c, left, seen, trace, rfl, event, setsOff⟩
    · rcases List.cons_eq_append_iff.1 same with ⟨rfl, last⟩ | ⟨since', rfl, past⟩
      · cases last
      · exact recorded.starts since' other earlier past

end Recorded

/-! ### Events and trees -/

/-- Where the condition of a custom effect is there, it was the same before, or the effect has become
live since, as an instance with a new number. -/
theorem Entity.Ensues.condition {calls : Call π → Prop} {e e' : Entity π}
    (ensues : e.Ensues rules calls e') (there : e'.condition (.custom effect serial index) ≠ .absent) :
    e'.condition (.custom effect serial index) = e.condition (.custom effect serial index) ∨
      (e.nextHandle ≤ serial ∧ ∃ d custom, rules.effects.get? effect = some d ∧
        d.customEffects[index]? = some custom ∧
          (e'.condition (.custom effect serial index)).frame = custom.condition.frame) := by
  obtain ⟨live', found, same, placed⟩ : ∃ live', e'.effects.get? effect = some live' ∧
      live'.serial = serial ∧ e'.condition (.custom effect serial index) = live'.condition index := by
    unfold Entity.condition at there ⊢
    dsimp only at there ⊢
    cases found : e'.effects.get? effect with
    | none =>
        rw [found] at there
        exact absurd rfl there
    | some live' =>
        rw [found] at there
        dsimp only at there ⊢
        split at there
        · rename_i same
          exact ⟨live', rfl, same, if_pos same⟩
        · exact absurd rfl there
  rcases ensues.effects effect live' found with ⟨live, before, goesOn⟩ | arises
  · left
    rw [placed]
    unfold Entity.condition
    dsimp only
    rw [before]
    dsimp only
    rw [if_pos (goesOn.serial ▸ same), LiveEffect.condition, LiveEffect.condition, goesOn.conditions]
  · right
    obtain ⟨d, r, registered, rooted⟩ := arises.rooted
    refine ⟨same ▸ arises.new, d, ?_⟩
    rw [placed] at there ⊢
    unfold LiveEffect.condition at there ⊢
    rw [rooted, List.getD_eq_getElem?_getD, List.getElem?_map] at there ⊢
    cases listed : d.customEffects[index]? with
    | none =>
        rw [listed] at there
        exact absurd rfl there
    | some custom =>
        refine ⟨custom, registered, rfl, ?_⟩
        have pristine : custom.condition.pristine.frame = custom.condition.frame := by
          have keeps (n : Node π) : n.pristine.flags = n.flags := rfl
          rw [Condition.pristine_eq_map]
          exact Condition.chart_map keeps custom.condition
        exact (Condition.frame_arm r _).trans pristine

omit [CustomTrigger π] in
theorem Entity.Tidy.numbered {e : Entity π} (tidy : e.Tidy)
    (there : e.condition (.custom effect serial index) ≠ .absent) : serial < e.nextHandle := by
  unfold Entity.condition at there
  dsimp only at there
  cases found : e.effects.get? effect with
  | none =>
      rw [found] at there
      exact absurd rfl there
  | some live =>
      rw [found] at there
      dsimp only at there
      split at there
      · rename_i same
        exact same ▸ (tidy.effects effect live found).numbered
      · exact absurd rfl there

structure World.Regular (rules : Rulebook π) (strict : Prop) (effect : EffectName) (serial : Handle)
    (index : Nat) (w : World π) : Prop where
  recorded : Recorded rules strict effect serial index w.trace
  latest : ∀ left, lastLeft? (.custom effect serial index) w.trace = some left →
    serial < w.entity.nextHandle ∧ (w.entity.condition (.custom effect serial index) = .absent ∨
      w.entity.condition (.custom effect serial index) = left)
  framed : w.entity.condition (.custom effect serial index) ≠ .absent →
    ∃ d custom, rules.effects.get? effect = some d ∧ d.customEffects[index]? = some custom ∧
      (w.entity.condition (.custom effect serial index)).frame = custom.condition.frame

namespace World.Regular

variable {w w' : World π}

theorem start (values : Table StatValue) : Regular rules strict effect serial index
    (.ofEntity { Entity.new with values := values } : World π) :=
  ⟨.nil, nofun, fun there => absurd rfl there⟩

theorem loosen (regular : w.Regular rules strict effect serial index) :
    w.Regular rules False effect serial index := by
  refine { regular with recorded := { regular.recorded with events := ?_ } }
  intro later stimulus left seen earlier split
  obtain ⟨r, c, event, -⟩ := regular.recorded.events later stimulus left seen earlier split
  exact ⟨r, c, event, False.elim⟩

/-- Nothing happens to the condition, unless the effect becomes live. -/
theorem carried (happened : List (Occurrence π))
    (regular : w.Regular rules strict effect serial index)
    (handles : w.entity.nextHandle ≤ w'.entity.nextHandle)
    (trees : w'.entity.condition (.custom effect serial index) ≠ .absent →
      w'.entity.condition (.custom effect serial index) =
          w.entity.condition (.custom effect serial index) ∨
        (w.entity.nextHandle ≤ serial ∧ ∃ d custom, rules.effects.get? effect = some d ∧
          d.customEffects[index]? = some custom ∧
            (w'.entity.condition (.custom effect serial index)).frame = custom.condition.frame))
    (elsewhere : ∀ o ∈ happened, o.Elsewhere effect serial index)
    (grown : w'.trace = happened ++ w.trace) : w'.Regular rules strict effect serial index := by
  have same : lastLeft? (.custom effect serial index) w'.trace =
      lastLeft? (.custom effect serial index) w.trace := by
    rw [grown, lastLeft?, List.findSome?_append,
      List.findSome?_eq_none_iff.2 fun o member => (elsewhere o member).left]
    rfl
  refine ⟨grown ▸ regular.recorded.append elsewhere, fun left last => ?_, fun there => ?_⟩
  · rw [same] at last
    obtain ⟨given, tree⟩ := regular.latest left last
    refine ⟨Nat.lt_of_lt_of_le given handles, ?_⟩
    by_cases there : w'.entity.condition (.custom effect serial index) = .absent
    · exact .inl there
    · rcases trees there with kept | ⟨new, -⟩
      · rw [kept]
        exact tree
      · exact absurd given (Nat.not_lt.2 new)
  · rcases trees there with kept | ⟨-, known⟩
    · rw [kept] at there ⊢
      exact regular.framed there
    · exact known

/-- The event that goes through the condition is recorded as it is. -/
theorem event (regular : w.Regular rules strict effect serial index)
    (there : w.entity.condition (.custom effect serial index) ≠ .absent) (stimulus : Stimulus)
    (r : Readings) : Event rules effect serial index stimulus r
      (w.entity.condition (.custom effect serial index))
      (Engine.Stimulus.apply stimulus r (w.entity.condition (.custom effect serial index))).1
      (.consulted (w.entity.setCondition (.custom effect serial index) .absent) :: w.trace) where
  known := regular.framed there
  left := rfl
  before earlier last := by
    have aside : (Occurrence.consulted (w.entity.setCondition (.custom effect serial index)
        .absent)).Elsewhere effect serial index := .of_plain rfl
    rw [aside.lastLeft?] at last
    obtain ⟨-, gone | same⟩ := regular.latest earlier last
    · exact absurd gone there
    · exact same.symm

/-- An event goes through the condition. -/
theorem moved (regular : w.Regular rules strict effect serial index) (tidy : w.entity.Tidy)
    (there : w.entity.condition (.custom effect serial index) ≠ .absent) (stimulus : Stimulus)
    (r : Readings)
    (entity : w'.entity = w.entity.setCondition (.custom effect serial index)
      (Engine.Stimulus.apply stimulus r (w.entity.condition (.custom effect serial index))).1)
    (last : lastLeft? (.custom effect serial index) w'.trace =
      some (w'.entity.condition (.custom effect serial index)))
    (recorded : Recorded rules strict effect serial index w'.trace) :
    w'.Regular rules strict effect serial index := by
  refine ⟨recorded, fun left same => ?_, fun _ => ?_⟩
  · rw [last] at same
    refine ⟨?_, .inr (Option.some.inj same)⟩
    rw [entity]
    exact tidy.numbered there
  · obtain ⟨d, custom, registered, listed, frame⟩ := regular.framed there
    refine ⟨d, custom, registered, listed, ?_⟩
    rw [entity, Entity.condition_setCondition_custom there, Engine.Stimulus.frame_apply, frame]

end World.Regular

/-- What an event leaves is the latest that is known of the condition. -/
theorem Advance.regular {calls : Call π → Prop} {w w' : World π}
    (advance : Advance rules calls strict w w') (tidy : w.entity.Tidy)
    (regular : w.Regular rules strict effect serial index) :
    w'.Regular rules strict effect serial index := by
  -- An event in the condition of another custom effect.
  have other {owner : Owner} (different : owner ≠ .custom effect serial index)
      (there : w.entity.condition owner ≠ .absent) (stimulus : Stimulus) (left : Condition π) :
      (w.stirred owner stimulus left).Regular rules strict effect serial index := by
    obtain ⟨-, -, handles⟩ := Entity.setCondition_rest w.entity owner left
    refine regular.carried [_, _] (Nat.le_of_eq handles.symm) (fun _ => .inl ?_)
      (List.forall_mem_cons.2 ⟨.stimulated different _ _ _,
        List.forall_mem_singleton.2 (.of_plain rfl)⟩) rfl
    exact (tidy.condition_setCondition there left _).trans (if_neg (Ne.symm different))
  cases advance with
  | quiet happened change plain grown =>
      obtain ⟨-, ensues⟩ := change tidy
      exact regular.carried happened ensues.handles ensues.condition
        (fun o member => .of_plain (plain o member)) grown
  | @stirred name number place stimulus r there idle =>
      by_cases same : Owner.custom name number place = .custom effect serial index
      · cases same
        have event := regular.event there stimulus r
        refine regular.moved tidy there stimulus r rfl (lastLeft?_stimulated ..) ?_
        obtain ⟨d, custom, registered, listed, -⟩ := regular.framed there
        have found := Entity.condition_setCondition_custom there
          (Engine.Stimulus.apply stimulus r (w.entity.condition (.custom effect serial index))).1
        unfold World.stirred
        rw [found]
        refine (regular.recorded.elsewhere (.of_plain rfl)).event event (fun asked => ?_) _
        exact idle asked _ (.custom registered listed)
      · exact other same there stimulus _
  | @fired name number place stimulus r script there setsOff starts =>
      by_cases same : Owner.custom name number place = .custom effect serial index
      · cases same
        have event := regular.event there stimulus r
        refine regular.moved tidy there stimulus r rfl (lastLeft?_stimulated ..) ?_
        have found := Entity.condition_setCondition_custom there
          (Engine.Stimulus.apply stimulus r (w.entity.condition (.custom effect serial index))).1
        unfold World.begin World.stirred
        rw [found]
        exact (regular.recorded.elsewhere (.of_plain rfl)).fire event setsOff _ _
      · refine (other same there stimulus _).carried [_] (Nat.le_refl _) (fun _ => .inl rfl)
          (List.forall_mem_singleton.2 (.hookStarted (fun hook => same ?_) _)) rfl
        cases hook
        rfl

theorem Course.regular {calls : Call π → Prop} {w w' : World π}
    (course : Course rules calls strict w w') (tidy : w.entity.Tidy)
    (regular : w.Regular rules strict effect serial index) :
    w'.Regular rules strict effect serial index :=
  (course.keeps (World.Regular rules strict effect serial index)
    (fun _ _ tidy advance => advance.regular tidy) tidy regular).2

end

/-! ### Runs -/

/-- The traces of a run that has come to a world: its own so far, that of a call which is made next, and
that of a snapshot which is loaded, whether or not they come back. -/
inductive World.Traces (rules : Rulebook π) (w : World π) : List (Occurrence π) → Prop where
  | past : Traces rules w w.trace
  | next (levels : Nat) (c : Call π) :
      Traces rules w (Act.left (Engine.perform rules levels c w)).trace
  | loading (levels : Nat) (snapshot : Snapshot) :
      Traces rules w (Act.left (snapshot.restore rules levels)).trace

section

variable {rules : Rulebook π} {snapshots : Snapshot → Prop} {calls : Entity π → Call π → Prop}
  {w : World π} {effect : EffectName} {serial : Handle} {index : Nat} {trace : List (Occurrence π)}

theorem Reached.regular (reached : Reached rules snapshots calls w) (effect : EffectName)
    (serial : Handle) (index : Nat) : w.Regular rules True effect serial index := by
  obtain ⟨values, course⟩ := reached.course
  have sound : Sound rules (.ofEntity { Entity.new with values := values }) := .start values
  exact course.regular sound.tidy (.start values)

theorem Reached.recorded (reached : Reached rules snapshots calls w) (traces : w.Traces rules trace)
    (effect : EffectName) (serial : Handle) (index : Nat) :
    Recorded rules False effect serial index trace := by
  obtain ⟨sound, -⟩ := reached.settled
  have loose : w.Regular rules False effect serial index :=
    (reached.regular effect serial index).loosen
  cases traces with
  | past => exact loose.recorded
  | next levels c =>
      exact ((perform_charted levels c : Charted rules _ _) w).left.regular sound.tidy loose |>.recorded
  | loading levels snapshot =>
      have charted : Charted rules (fun _ => True) (snapshot.addParts rules levels).run :=
        addParts_charted (fun _ _ _ => trivial) ⟨.refreshImmunity, trivial⟩ snapshot levels
      have fresh : Sound rules (.ofEntity { Entity.new with values := snapshot.stats }) :=
        .start snapshot.stats
      exact ((charted _).left.regular fresh.tidy (.start snapshot.stats)).recorded

/-- Between two starts of the action of a chain there was an event that left the chain unmet. -/
theorem Recorded.unmet_between {strict : Prop} {d : EffectDefinition π} {custom : CustomEffect π}
    (recorded : Recorded rules strict effect serial index trace)
    (registered : rules.effects.get? effect = some d) (listed : d.customEffects[index]? = some custom)
    (chain : custom.condition.isChain = true) {later between earlier : List (Occurrence π)}
    {seen seen' : Entity π}
    (split : trace = later ++ .hookStarted (.custom effect serial index) seen ::
      (between ++ .hookStarted (.custom effect serial index) seen' :: earlier)) :
    ∃ stimulus left other, .stimulated (.custom effect serial index) stimulus left other ∈ between ∧
      left.holds false = false := by
  obtain ⟨stimulus, r, c, left, other, before, latest, event, setsOff⟩ := recorded.starts _ _ _ split
  have unmet : c.holds false = false := by
    obtain ⟨d', custom', registered', listed', frame⟩ := event.known
    rw [registered] at registered'
    cases registered'
    rw [listed] at listed'
    cases listed'
    exact setsOff.unmet (Condition.isChain_of_frame frame chain)
  -- The later start came directly after an event that found the condition unmet. What left it so is
  -- the last event before, and that one lies between the two starts.
  cases between with
  | nil => cases latest
  | cons o rest =>
      obtain ⟨-, rfl⟩ := List.cons_eq_cons.1 latest
      have known : ∀ c', (rest ++ .hookStarted (.custom effect serial index) seen' :: earlier).findSome?
          (Occurrence.left? (.custom effect serial index)) = some c' → c' = c := event.before
      rw [List.findSome?_append] at known
      cases last : rest.findSome? (Occurrence.left? (.custom effect serial index)) with
      | some c' =>
          rw [last] at known
          cases known c' rfl
          obtain ⟨o', member, leaves⟩ := List.exists_of_findSome?_eq_some last
          unfold Occurrence.left? at leaves
          split at leaves
          · rename_i owner stimulus' left' seen''
            split at leaves
            · rename_i same
              subst same
              cases leaves
              exact ⟨stimulus', c, seen'', List.mem_cons_of_mem _ member, unmet⟩
            · cases leaves
          · cases leaves
      | none =>
          -- The event before is the one that set off the earlier start, which left the chain met.
          obtain ⟨stimulus', r', c', left', other', before', rfl, event', setsOff'⟩ :=
            recorded.starts (later ++ .hookStarted (.custom effect serial index) seen :: o :: rest) seen'
              earlier (by rw [split, List.append_assoc]; rfl)
          rw [last, Option.none_or] at known
          have same : left' = c := known left' (by
            rw [List.findSome?_cons]
            exact lastLeft?_stimulated ..)
          have met := setsOff'.met
          rw [event'.left, same, unmet] at met
          cases met

/-- The action of a custom effect starts directly after events that change some result of its condition
and leave the condition met, and after no other ones; the event found the condition as the one before
had left it. Between two starts on the same instance the condition was unmet if no node has an `or`
branch. In a run that comes back the action starts whenever an event makes an unmet condition met. -/
theorem custom_actions_start (reached : Reached rules snapshots calls w) (effect : EffectName)
    (serial : Handle) (index : Nat) :
    (∀ trace, w.Traces rules trace →
      (∀ later seen earlier,
        trace = later ++ .hookStarted (.custom effect serial index) seen :: earlier →
          ∃ stimulus r c other before, earlier = .stimulated (.custom effect serial index) stimulus
              (Engine.Stimulus.apply stimulus r c).1 other :: before ∧
            stimulus.SetsOff r c ∧
            ∀ left, lastLeft? (.custom effect serial index) before = some left → left = c) ∧
      ∀ d custom, rules.effects.get? effect = some d → d.customEffects[index]? = some custom →
        custom.condition.isChain = true → ∀ later seen between seen' earlier,
          trace = later ++ .hookStarted (.custom effect serial index) seen ::
            (between ++ .hookStarted (.custom effect serial index) seen' :: earlier) →
          ∃ stimulus left other,
            .stimulated (.custom effect serial index) stimulus left other ∈ between ∧
              left.holds false = false) ∧
    ∀ later stimulus left seen earlier before,
      w.trace = later ++ .stimulated (.custom effect serial index) stimulus left seen :: earlier →
      stimulus ≠ .restart → lastLeft? (.custom effect serial index) earlier = some before →
      before.holds false = false → left.holds false = true → Answered effect serial index later := by
  refine ⟨fun trace traces => ?_, fun later stimulus left seen earlier before split told last unmet
    met => ?_⟩
  · have recorded := reached.recorded traces effect serial index
    refine ⟨fun later seen earlier split => ?_, fun d custom registered listed chain later seen between
      seen' earlier split => recorded.unmet_between registered listed chain split⟩
    obtain ⟨stimulus, r, c, left, other, before, latest, event, setsOff⟩ := recorded.starts _ _ _ split
    exact ⟨stimulus, r, c, other, before, event.left.symm ▸ latest, setsOff, event.before⟩
  · obtain ⟨r, c, event, answered⟩ :=
      (reached.regular effect serial index).recorded.events _ _ _ _ _ split
    cases event.before before last
    exact answered trivial (.of_unmet told unmet (event.left.symm ▸ met))

end

/-- Whether the action of a custom effect starts, or an event leaves its condition unmet. -/
def Occurrence.turns? (effect : EffectName) (serial : Handle) (index : Nat) :
    Occurrence π → Option Bool
  | .hookStarted hook _ => if hook = .custom effect serial index then some true else none
  | .stimulated owner _ left _ =>
    if owner = .custom effect serial index && !left.holds false then some false else none
  | _ => none

omit [CustomTrigger π] in
theorem Occurrence.turns?_eq_true {effect : EffectName} {serial : Handle} {index : Nat}
    {o : Occurrence π} (starts : o.turns? effect serial index = some true) :
    ∃ seen, o = .hookStarted (.custom effect serial index) seen := by
  unfold Occurrence.turns? at starts
  split at starts
  · rename_i hook seen
    split at starts
    · rename_i same
      exact ⟨seen, by rw [same]⟩
    · cases starts
  · split at starts
    · cases starts
    · cases starts
  · cases starts

def lookout : EffectDefinition Empty :=
  { EffectDefinition.ofName "lookout" with
    customEffects := [{
      condition := .ofTrigger (.threshold ⟨"health", .greaterEquals, 50, true⟩)
      action := fun _ => .done () }] }

def sentry : EffectDefinition Empty :=
  { EffectDefinition.ofName "sentry" with
    customEffects := [{
      condition := (Condition.ofTrigger (.threshold ⟨"health", .greaterEquals, 50, true⟩)).orElse
        (.ofTrigger (.threshold ⟨"mana", .greaterEquals, 50, true⟩))
      action := fun _ => .done () }] }

def lookoutRules : Rulebook Empty :=
  ((do
    let rules ← Rulebook.builtin.registerStat "health" 100
    let rules ← rules.registerStat "mana" 100
    let rules ← rules.registerEffect lookout
    rules.registerEffect sentry).toOption).getD .builtin

/-- When health is full, spent and full again, the action starts twice. In between the condition was
unmet. -/
theorem lookout_starts_twice : ∃ (w : World Empty) (later between earlier : List (Occurrence Empty))
    (seen seen' : Entity Empty) (stimulus : Stimulus) (left : Condition Empty) (other : Entity Empty),
    Reached lookoutRules (fun _ => True) (fun _ _ => True) w ∧
    w.trace = later ++ .hookStarted (.custom "lookout" 1 0) seen ::
      (between ++ .hookStarted (.custom "lookout" 1 0) seen' :: earlier) ∧
    .stimulated (.custom "lookout" 1 0) stimulus left other ∈ between ∧ left.holds false = false := by
  have made : ((Engine.performAll lookoutRules 6
      [.setCurrent "health" 0, .addStack "lookout" (.ofValue 1) none, .setCurrent "health" 100,
        .setCurrent "health" 0, .setCurrent "health" 100] (.ofEntity .new)).any fun w =>
      w.trace.filterMap (Occurrence.turns? "lookout" 1 0) = [true, false, true]) = true := by
    decide +kernel
  obtain ⟨w, run, checked⟩ := (Option.any_eq_true ..).1 made
  have reached : Reached lookoutRules (fun _ => True) (fun _ _ => True) w :=
    Engine.reached_of_performAll .new (fun _ _ _ => trivial) run
  obtain ⟨later, o, rest, split, -, starts, others⟩ :=
    List.filterMap_eq_cons_iff.1 (of_decide_eq_true checked)
  obtain ⟨first, o₁, rest₁, split₁, -, -, others₁⟩ := List.filterMap_eq_cons_iff.1 others
  obtain ⟨second, o₂, earlier, split₂, -, starts₂, -⟩ := List.filterMap_eq_cons_iff.1 others₁
  obtain ⟨seen, rfl⟩ := Occurrence.turns?_eq_true starts
  obtain ⟨seen', rfl⟩ := Occurrence.turns?_eq_true starts₂
  have whole : w.trace = later ++ .hookStarted (.custom "lookout" 1 0) seen ::
      ((first ++ o₁ :: second) ++ .hookStarted (.custom "lookout" 1 0) seen' :: earlier) := by
    rw [split, split₁, split₂, List.append_assoc]
    rfl
  obtain ⟨-, between⟩ := (custom_actions_start reached "lookout" 1 0).1 w.trace .past
  obtain ⟨stimulus, left, other, member, unmet⟩ :=
    between lookout _ rfl rfl rfl later seen _ seen' earlier whole
  exact ⟨w, later, _, earlier, seen, seen', stimulus, left, other, reached, whole, member, unmet⟩

/-- Health fills while mana is spent, and then mana fills: the action starts twice, although no event in
between left the condition unmet and its root does not ask to start again. -/
theorem sentry_starts_again : ∃ (w : World Empty) (later between earlier : List (Occurrence Empty))
    (seen seen' : Entity Empty) (custom : CustomEffect Empty),
    lookoutRules.effects.get? "sentry" = some sentry ∧ sentry.customEffects[0]? = some custom ∧
    custom.condition.head?.all (fun root => !root.restartsOnMet) = true ∧
    Reached lookoutRules (fun _ => True) (fun _ _ => True) w ∧
    w.trace = later ++ .hookStarted (.custom "sentry" 1 0) seen ::
      (between ++ .hookStarted (.custom "sentry" 1 0) seen' :: earlier) ∧
    ∀ stimulus left other, .stimulated (.custom "sentry" 1 0) stimulus left other ∈ between →
      left.holds false = true := by
  have made : ((Engine.performAll lookoutRules 6
      [.setCurrent "health" 0, .setCurrent "mana" 0, .addStack "sentry" (.ofValue 1) none,
        .setCurrent "health" 100, .setCurrent "mana" 100] (.ofEntity .new)).any fun w =>
      w.trace.filterMap (Occurrence.turns? "sentry" 1 0) = [true, true]) = true := by
    decide +kernel
  obtain ⟨w, run, checked⟩ := (Option.any_eq_true ..).1 made
  have reached : Reached lookoutRules (fun _ => True) (fun _ _ => True) w :=
    Engine.reached_of_performAll .new (fun _ _ _ => trivial) run
  obtain ⟨later, o, rest, split, -, starts, others⟩ :=
    List.filterMap_eq_cons_iff.1 (of_decide_eq_true checked)
  obtain ⟨between, o', earlier, split', untold, starts', -⟩ := List.filterMap_eq_cons_iff.1 others
  obtain ⟨seen, rfl⟩ := Occurrence.turns?_eq_true starts
  obtain ⟨seen', rfl⟩ := Occurrence.turns?_eq_true starts'
  refine ⟨w, later, between, earlier, seen, seen', _, rfl, rfl, rfl, reached, split' ▸ split, ?_⟩
  intro stimulus left other member
  have met := untold _ member
  unfold Occurrence.turns? at met
  simpa using met

end StatusEffects
