import StatusEffects.Proofs.Notices

/-!
The listeners to changes of stacks are called for every change but one.

Whatever adds, merges, draws on, drains or expires stacks of an effect calls the listeners before it
goes on, so a call that leaves other stacks than it found has told of them. A live effect that is taken
out as a whole, though, goes with its stacks without a word about them, and without a word about itself
unless it applied.
-/

set_option autoImplicit false

namespace StatusEffects

variable {π : Type} [CustomTrigger π]

/-- The stacks of an effect by their handles, values and activity, in their order; none if it is not
live. -/
def Entity.lineup (e : Entity π) (effect : EffectName) : List (Handle × UInt32 × Bool) :=
  (e.held effect).map fun s => (s.id, s.value, s.active)

/-- Whether listeners to the stacks of an effect are called, or a hook has taken it out as a whole. -/
def Occurrence.tellsOf (effect : EffectName) : Occurrence π → Bool
  | .stacksChanged name _ => name = effect
  | .called (.removeEffect name) _ _ => name = effect
  | _ => false

omit [CustomTrigger π] in
theorem Occurrence.tellsOf_iff {effect : EffectName} {o : Occurrence π} :
    o.tellsOf effect = true ↔ (∃ seen, o = .stacksChanged effect seen) ∨
      ∃ reply seen, o = .called (.removeEffect effect) reply seen := by
  constructor
  · intro tells
    unfold tellsOf at tells
    split at tells
    · rename_i name seen
      exact .inl ⟨seen, by rw [of_decide_eq_true tells]⟩
    · rename_i name reply seen
      obtain rfl := of_decide_eq_true tells
      exact .inr ⟨reply, seen, rfl⟩
    · cases tells
  · rintro (⟨seen, rfl⟩ | ⟨reply, seen, rfl⟩)
    · exact decide_eq_true rfl
    · exact decide_eq_true rfl

namespace Entity

variable {e e' : Entity π} {calls : Call π → Prop}

omit [CustomTrigger π] in
theorem lineup_of_held {effect : EffectName} (same : e'.held effect = e.held effect) :
    e'.lineup effect = e.lineup effect :=
  congrArg (List.map _) same

theorem Spares.lineup (spares : e.Spares calls e') (effect : EffectName) :
    e'.lineup effect = e.lineup effect := by
  have shown (e : Entity π) : e.lineup effect =
      ((e.held effect).map Stack.outline).map fun s => (s.id, s.value, s.active) := by
    rw [List.map_map]
    rfl
  rw [shown, shown, spares.outlines]

end Entity

/-! ### What is left to be told -/

/-- The trace only grows, and the lineup of an effect stays as it is unless something tells of it. It
may be known beforehand that it does not. -/
def Reports (effect : EffectName) (known : Prop) (w w' : World π) : Prop :=
  w.entity.Attended → w'.entity.Attended ∧ ∃ happened, w'.trace = happened ++ w.trace ∧
    (known ∨ (∃ o ∈ happened, o.tellsOf effect = true) ∨
      w'.entity.lineup effect = w.entity.lineup effect)

namespace Reports

variable {E : EffectName} {known : Prop} {w w' : World π}

theorem steady (E : EffectName) (known : Prop) : Act.Steady (Reports (π := π) E known) where
  refl w attended := ⟨attended, [], rfl, .inr (.inr rfl)⟩
  trans first second attended := by
    obtain ⟨attended₂, before, grown, told⟩ := first attended
    obtain ⟨attended₃, after, grown', told'⟩ := second attended₂
    refine ⟨attended₃, after ++ before, by rw [grown', grown, List.append_assoc], ?_⟩
    rcases told with holds | ⟨o, member, tells⟩ | same
    · exact .inl holds
    · exact .inr (.inl ⟨o, List.mem_append_right _ member, tells⟩)
    · rcases told' with holds | ⟨o, member, tells⟩ | same'
      · exact .inl holds
      · exact .inr (.inl ⟨o, List.mem_append_left _ member, tells⟩)
      · exact .inr (.inr (same'.trans same))

theorem mono {weaker : Prop} (implies : known → weaker) (reports : Reports E known w w') :
    Reports E weaker w w' := by
  intro attended
  obtain ⟨attended', happened, grown, told⟩ := reports attended
  exact ⟨attended', happened, grown, told.imp_left implies⟩

/-- A change of the entity under which the lineup stays as it is. -/
theorem changed {e : Entity π} (asides : List (Occurrence π))
    (keeps : w.entity.Attended → e.Attended)
    (same : w.entity.Attended → known ∨ e.lineup E = w.entity.lineup E) :
    Reports E known w { w with entity := e, trace := asides ++ w.trace } := by
  intro attended
  refine ⟨keeps attended, asides, rfl, ?_⟩
  rcases same attended with holds | same
  · exact .inl holds
  · exact .inr (.inr same)

theorem mark (w : World π) (o : Occurrence π) :
    Reports E known w { w with trace := o :: w.trace } :=
  .changed [o] id fun _ => .inr rfl

/-- What tells of the effect settles what was left open. -/
theorem told {o : Occurrence π} (tells : o.tellsOf E = true) (before : Reports E True w w') :
    Reports E known w { w' with trace := o :: w'.trace } := by
  intro attended
  obtain ⟨attended', happened, grown, -⟩ := before attended
  refine ⟨attended', o :: happened, ?_, .inr (.inl ⟨o, List.mem_cons_self .., tells⟩)⟩
  change o :: w'.trace = _
  rw [grown, List.cons_append]

theorem begins (w : World π) (hook : Hook) : Reports E known w (w.begin hook) :=
  .changed [.hookStarted hook w.entity] id fun _ => .inr rfl

end Reports

namespace Engine

open Act

variable {rules : Rulebook π} {nested : Nested π}

theorem passTime_reports {E : EffectName} {known : Prop}
    (reacts : ∀ owner, (react nested rules owner).Keeps (Reports E known)) (delta : Float32) :
    (passTime nested rules delta).Keeps (Reports E known) := by
  refine passTime_paces (Reports.steady E known) (fun moves spares _ => ?_)
    (fun _ walk _ => .changed [] (.walks walk) fun _ => .inr rfl) reacts delta
  exact .changed _ moves.attended fun _ => .inr ((spares fun _ => True).lineup E)

/-- Calls that do not take the effect out as a whole, and hooks whose calls to do so are recorded, tell
of every other lineup. Nothing is said of the lineup where it is known that nothing has to be. -/
theorem follows_reports {E : EffectName} {known : Prop} {calls : Call π → Prop}
    (kept : known ∨ ¬calls (.removeEffect E))
    (uncalled : ∀ {nested : Nested π},
      (∀ r, (nested r).Keeps (r.Served rules (Reports E known))) → ∀ {c : Call π}, ¬calls c → ∀ w,
        (performWith nested rules c).Yields w fun reply w' =>
          Reports E known w (Returned c reply w')) :
    Follows rules calls (Reports E known) fun effect => Reports E (known ∨ effect = E) := by
  have steady := Reports.steady (π := π) E known
  have gone {w : World π} {effect : EffectName} {live : LiveEffect π}
      (found : w.entity.effects.get? effect = some live)
      (cause : live.held = [] ∨ calls (.removeEffect effect)) :
      Reports E known w (Gone effect live w) := by
    refine .changed [_] (fun attended => attended.dropEffect found) fun _ => ?_
    by_cases here : E = effect
    · subst here
      rcases cause with empty | licensed
      · refine .inr (Entity.lineup_of_held ?_)
        rw [Entity.held_dropEffect, if_pos rfl, Entity.held_of_found found, empty]
      · exact kept.imp_right fun other => absurd licensed other
    · refine .inr (Entity.lineup_of_held ?_)
      rw [Entity.held_dropEffect, if_neg here]
  refine
    { steady := steady
      loose := fun effect => Reports.steady E _
      loosen := Reports.mono .inl
      tighten := ?_
      told := ?_
      restacked := ?_
      flipped := ?_
      dropped := fun found cause _ => gone found cause
      ended := ?_
      started := fun _ _ w => .begins w _
      running := fun w hooks => .changed [] id fun _ => .inr rfl
      called := fun _ _ _ _ reply w => .mark w _
      uncalled := fun serves _ _ _ _ _ => uncalled serves
      passes := fun _ => passTime_reports }
  · intro effect w w' pending
    by_cases here : effect = E
    · exact .told (decide_eq_true here) (pending.mono fun _ => trivial)
    · exact steady.trans (pending.mono fun open' => open'.resolve_right here) (.mark w' _)
  · intro w w' stats e asides moves spares aside told
    refine steady.trans (.changed asides moves.attended fun attended => .inr ?_)
      (told.steady steady fun w stat => .mark w _)
    exact (spares attended.tidy).lineup E
  · intro w effect e asides moves restacks aside
    refine .changed asides moves.attended fun attended => ?_
    by_cases here : effect = E
    · exact .inl (.inr here)
    · exact .inr (Entity.lineup_of_held ((restacks attended.tidy).others E (Ne.symm here)))
  · intro w w' effect live count active asides found changes aside ran
    have counted : Reports E known w { w with
        entity := w.entity.storeCount effect count active, trace := asides ++ w.trace } :=
      .changed asides (fun attended => attended.storeCount effect count active) fun _ =>
        .inr (Entity.lineup_of_held (Entity.held_storeCount _ effect E count active))
    exact steady.trans (steady.trans counted (ran.steady steady .begins)) (.mark w' _)
  · intro w w₁ w₂ effect live found cause _ removed ran
    exact steady.trans (steady.trans (steady.trans (gone found cause) removed)
      (ran.steady steady .begins)) (.mark w₂ _)

/-- Whatever is called, the trace grows and the subscriptions stay in step with the trees. -/
theorem follows_growth (rules : Rulebook π) (E : EffectName) :
    Follows rules (fun _ => True) (Reports E True) fun effect => Reports E (True ∨ effect = E) :=
  follows_reports (.inl trivial) fun _ _ other => absurd trivial other

/-- A hook that takes the effect out as a whole is recorded. -/
theorem follows_tidings (rules : Rulebook π) (E : EffectName) :
    Follows rules (fun c => c ≠ .removeEffect E) (Reports E False)
      fun effect => Reports E (False ∨ effect = E) := by
  refine follows_reports (.inr fun other => other rfl) fun serves c same w => ?_
  obtain rfl := Classical.not_not.1 same
  have coarse (r : Request π) (w w' : World π) (served : r.Served rules (Reports E False) w w') :
      r.Served rules (Reports E True) w w' := by
    cases r with
    | announce stat => exact Reports.mono False.elim served
    | run hook script => exact fun starts => Reports.mono False.elim (served starts)
  have grows := performWith_follows (follows_growth rules E)
    (fun r w => (serves r w).mono fun _ w' => coarse r w w') (.removeEffect E) trivial w
  exact grows.mono fun reply w' before => .told (decide_eq_true rfl) before

end Engine

/-! ### Changes between calls -/

variable {rules : Rulebook π}

/-- If the stacks of an effect have other handles, values or activity than before a call, or came or
went, the listeners to its stacks were called in that call, unless the call or a hook has taken the
effect out as a whole. If an effect was live and is no more, the listeners to the effect were called,
unless it did not apply. -/
theorem stack_changes_announced {snapshots : Snapshot → Prop} {calls : Entity π → Call π → Prop}
    {levels : Nat} {c : Call π} {reply : c.Reply} {w w' : World π}
    (reached : Reached rules snapshots calls w)
    (returns : Engine.perform rules levels c w = .ok reply w') :
    ∃ happened, w'.trace = happened ++ w.trace ∧ ∀ effect,
      (w'.entity.lineup effect ≠ w.entity.lineup effect →
        (∃ seen, .stacksChanged effect seen ∈ happened) ∨ c = .removeEffect effect ∨
          ∃ reply seen, .called (.removeEffect effect) reply seen ∈ happened) ∧
      (w.entity.effects.contains effect = true → w'.entity.effects.contains effect = false →
        (∃ seen, .effectChanged effect seen ∈ happened) ∨ w.entity.hasEffect effect = false) := by
  have attended := reached.attended.1
  obtain ⟨-, happened, grown, informed⟩ :=
    (Engine.admits_informs rules).perform levels c w reply w' returns attended
  refine ⟨happened, grown, fun effect => ⟨fun changed => ?_, fun _ gone => ?_⟩⟩
  · by_cases taken : c = .removeEffect effect
    · exact .inr (.inl taken)
    · obtain ⟨-, happened', grown', told⟩ := Engine.perform_follows
        (Engine.follows_tidings rules effect) levels c taken w reply w' returns attended
      obtain rfl : happened' = happened :=
        List.append_cancel_right (grown'.symm.trans grown)
      rcases told with none | ⟨o, member, tells⟩ | same
      · exact none.elim
      · rcases Occurrence.tellsOf_iff.1 tells with ⟨seen, rfl⟩ | ⟨reply, seen, rfl⟩
        · exact .inl ⟨seen, member⟩
        · exact .inr (.inr ⟨reply, seen, member⟩)
      · exact absurd same changed
  · cases applied : w.entity.hasEffect effect with
    | false => exact .inr rfl
    | true =>
        left
        have ceased : w'.entity.hasEffect effect = false := by
          unfold Entity.hasEffect
          rw [Table.contains, Option.isSome_eq_false_iff, Option.isNone_iff_eq_none] at gone
          rw [gone]
          rfl
        have last := informed.effects effect
        unfold lastSeen at last
        cases saw : happened.findSome? (Occurrence.effectSeen? effect) with
        | none =>
            rw [saw, ceased, Option.getD_none, applied] at last
            cases last
        | some seen =>
            obtain ⟨o, member, shown⟩ := List.exists_of_findSome?_eq_some saw
            rw [Occurrence.effectSeen?_eq_some.1 shown] at member
            exact ⟨seen, member⟩

def frailRules : Rulebook Empty :=
  ((do
    let rules ← Rulebook.builtin.registerEffect (.ofName "burn")
    let rules ← rules.registerEffect (.ofName "chill")
    pure { rules with immunity := some fun _ effect => effect = "chill" }).toOption).getD .builtin

/-- The stack that a call adds is told of. -/
theorem burn_announced : ∃ w : World Empty,
    (∃ reply, Engine.perform frailRules 6 (.addStack "burn" (.ofValue 1) none) (.ofEntity .new) =
      .ok reply w) ∧
    w.entity.lineup "burn" = [(2, 1, true)] ∧ ∃ seen, .stacksChanged "burn" seen ∈ w.trace := by
  have made : ((Engine.performAll frailRules 6 [.addStack "burn" (.ofValue 1) none]
      (.ofEntity .new)).any fun w => (w.entity.lineup "burn" = [(2, 1, true)]) &&
        w.trace.all fun o => match o with
          | .called .. => false
          | _ => true) = true := by
    decide +kernel
  obtain ⟨w, run, checked⟩ := (Option.any_eq_true ..).1 made
  rw [Bool.and_eq_true, decide_eq_true_eq, List.all_eq_true] at checked
  obtain ⟨there, silent⟩ := checked
  obtain ⟨reply, returns⟩ := Engine.perform_of_performAll run
  have start : Reached frailRules (fun _ => True) (fun _ _ => True) (.ofEntity .new) := .new
  obtain ⟨happened, grown, changes⟩ := stack_changes_announced start returns
  have same : w.trace = happened := grown.trans (List.append_nil _)
  refine ⟨w, ⟨reply, returns⟩, there, ?_⟩
  have other : w.entity.lineup "burn" ≠ (Entity.new : Entity Empty).lineup "burn" := by
    rw [there]
    exact List.cons_ne_nil _ _
  rcases (changes "burn").1 other with told | taken | ⟨reply, seen, member⟩
  · rwa [same]
  · cases taken
  · rw [← same] at member
    cases silent _ member

/-- With an effect that is taken out as a whole its stack goes, but the listeners to its stacks are
not called. Those who listen to the effect are not called either if the entity is immune. -/
theorem removals_untold : ∃ w : World Empty,
    Reached frailRules (fun _ => True) (fun _ _ => True) w ∧
    (∃ reply w' happened, Engine.perform frailRules 6 (.removeEffect "burn") w = .ok reply w' ∧
      w'.trace = happened ++ w.trace ∧ w'.entity.lineup "burn" ≠ w.entity.lineup "burn" ∧
      ∀ seen, .stacksChanged "burn" seen ∉ happened) ∧
    ∃ reply w' happened, Engine.perform frailRules 6 (.removeEffect "chill") w = .ok reply w' ∧
      w'.trace = happened ++ w.trace ∧ w.entity.effects.contains "chill" = true ∧
      w'.entity.effects.contains "chill" = false ∧ ∀ seen, .effectChanged "chill" seen ∉ happened := by
  have made : ((Engine.performAll frailRules 6
      [.addStack "burn" (.ofValue 1) none, .addStack "chill" (.ofValue 1) none]
      (.ofEntity .new)).any fun w =>
        ((Engine.performAll frailRules 6 [.removeEffect "burn"] w).any fun w' =>
          w'.entity.lineup "burn" ≠ w.entity.lineup "burn" &&
            (w'.trace.take (w'.trace.length - w.trace.length)).all fun o => !o.tellsOf "burn") &&
        (Engine.performAll frailRules 6 [.removeEffect "chill"] w).any fun w' =>
          w.entity.effects.contains "chill" && !w'.entity.effects.contains "chill" &&
            (w'.trace.take (w'.trace.length - w.trace.length)).all fun o =>
              (o.effectSeen? "chill").isNone) = true := by
    decide +kernel
  obtain ⟨w, run, checked⟩ := (Option.any_eq_true ..).1 made
  rw [Bool.and_eq_true] at checked
  obtain ⟨burnt, chilled⟩ := checked
  have reached : Reached frailRules (fun _ => True) (fun _ _ => True) w :=
    Engine.reached_of_performAll .new (fun _ _ _ => trivial) run
  have latest {c : Call Empty} {reply : c.Reply} {w' : World Empty}
      (returns : Engine.perform frailRules 6 c w = .ok reply w') :
      w'.trace = w'.trace.take (w'.trace.length - w.trace.length) ++ w.trace := by
    obtain ⟨-, happened, grown, -⟩ := (Engine.admits_informs frailRules).perform 6 c w reply w' returns
      reached.attended.1
    rw [grown]
    simp
  refine ⟨w, reached, ?_, ?_⟩
  · obtain ⟨w', run', checked⟩ := (Option.any_eq_true ..).1 burnt
    rw [Bool.and_eq_true, decide_eq_true_eq, List.all_eq_true] at checked
    obtain ⟨changed, silent⟩ := checked
    obtain ⟨reply, returns⟩ := Engine.perform_of_performAll run'
    refine ⟨reply, w', _, returns, latest returns, changed, fun seen member => ?_⟩
    have untold := silent _ member
    rw [Occurrence.tellsOf_iff.2 (.inl ⟨seen, rfl⟩)] at untold
    cases untold
  · obtain ⟨w', run', checked⟩ := (Option.any_eq_true ..).1 chilled
    rw [Bool.and_eq_true, Bool.and_eq_true, List.all_eq_true] at checked
    obtain ⟨⟨there, gone⟩, silent⟩ := checked
    obtain ⟨reply, returns⟩ := Engine.perform_of_performAll run'
    refine ⟨reply, w', _, returns, latest returns, there, by simpa using gone, fun seen member => ?_⟩
    have unseen := silent _ member
    rw [Occurrence.effectSeen?_eq_some.2 rfl] at unseen
    cases unseen

end StatusEffects
