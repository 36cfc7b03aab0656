import StatusEffects.Proofs.Subscriptions

/-!
The hooks of an effect that begins or ceases to apply.

An effect that flips when it is settled has its hook started at once, but an effect that is taken out
while it applies takes its modifiers with it first. What is announced then can make the effect live
again, whose first hook then overtakes the second hook of the one that is gone. A monitor of the trace
tells when that happens; unless it does, the two hooks take turns. The balance of their starts is right
in any case.
-/

set_option autoImplicit false

namespace StatusEffects

variable {π : Type}

/-! ### The starts of the hooks -/

def Occurrence.flip? (effect : EffectName) : Occurrence π → Option Bool
  | .hookStarted (.activated name) _ => if name = effect then some true else none
  | .hookStarted (.deactivated name) _ => if name = effect then some false else none
  | _ => none

def Occurrence.removes (effect : EffectName) : Occurrence π → Bool
  | .effectRemoved name _ => name = effect
  | _ => false

/-- The starts of the two hooks of an effect, the latest first. -/
def flips (effect : EffectName) (trace : List (Occurrence π)) : List Bool :=
  trace.filterMap (Occurrence.flip? effect)

/-- Whether starts, the latest first, take turns and begin with a beginning. -/
def takeTurns : List Bool → Bool
  | [] => true
  | start :: earlier => start != earlier.headD false && takeTurns earlier

/-- An effect was taken out while it applied, and the hook for that has not started yet. -/
def Leaving (effect : EffectName) (trace : List (Occurrence π)) : Prop :=
  ∃ since gone earlier, trace = since ++ .effectRemoved effect gone :: earlier ∧
    flips effect since = [] ∧ (flips effect earlier).headD false = true

/-- The hook for an effect that begins to apply has started while the effect was leaving. -/
def Overtaken (effect : EffectName) (trace : List (Occurrence π)) : Prop :=
  ∃ later seen earlier, trace = later ++ .hookStarted (.activated effect) seen :: earlier ∧
    Leaving effect earlier

/-! ### A monitor -/

inductive Phase where
  /-- It does not apply. -/
  | off
  /-- It applies. -/
  | on
  /-- It was taken out while it applied, and the hook for that has not started yet. -/
  | leaving
  /-- It began to apply again before that hook started. -/
  | overtaken
  /-- A hook started out of turn. -/
  | broken
deriving DecidableEq

namespace Phase

instance : Fintype Phase where
  elems := {.off, .on, .leaving, .overtaken, .broken}
  complete p := by cases p <;> decide

def turn : (active : Bool) → Phase → Phase
  | true, .off => .on
  | true, .on => .broken
  | true, .leaving => .overtaken
  | false, .on | false, .leaving => .off
  | false, .off => .broken
  | _, .overtaken => .overtaken
  | _, .broken => .broken

def leave : Phase → Phase
  | .on => .leaving
  | p => p

def next (effect : EffectName) (o : Occurrence π) (p : Phase) : Phase :=
  match o.flip? effect with
  | some active => p.turn active
  | none => if o.removes effect then p.leave else p

def fits : Phase → Bool → Bool
  | .off, active | .leaving, active => !active
  | .on, active => active
  | .overtaken, _ => true
  | .broken, _ => false

/-- Whether a phase may be left for another one while a step is made. A step that begins while the
effect is leaving ends so, or the effect is overtaken; no other step leaves it leaving. -/
def leads : Phase → Phase → Bool
  | .leaving, p => p = .leaving || p = .overtaken
  | .overtaken, p => p = .overtaken
  | _, p => p ≠ .leaving

theorem leads_refl : ∀ p : Phase, p.leads p = true := by decide

theorem leads_trans : ∀ {p₁ p₂ p₃ : Phase}, p₁.leads p₂ = true → p₂.leads p₃ = true →
    p₁.leads p₃ = true := by decide

/-- An effect flips and its hook starts. -/
theorem fits_turn : ∀ (p : Phase) (active : Bool), p.fits (!active) = true →
    (p.turn active).fits active = true ∧ p.leads (p.turn active) = true := by decide

/-- An effect that does not apply is taken out. -/
theorem fits_leave : ∀ p : Phase, p.fits false = true →
    p.leave.fits false = true ∧ p.leads p.leave = true := by decide

/-- An effect that applies is taken out. -/
theorem leave_fits : ∀ p : Phase, p.fits true = true → p.leave.fits false = true := by decide

/-- The hook of an effect that was taken out while it applied starts after something else has
happened. -/
theorem fits_turn_after : ∀ (p p' : Phase) (active : Bool), p.fits true = true →
    p'.fits active = true → p.leave.leads p' = true →
      (p'.turn false).fits active = true ∧ p.leads (p'.turn false) = true := by decide

end Phase

def phase (effect : EffectName) (trace : List (Occurrence π)) : Phase :=
  trace.foldr (Phase.next effect) .off

/-- How many more starts there were for beginnings than for ends. -/
def tally (effect : EffectName) (trace : List (Occurrence π)) : Int :=
  (flips effect trace).count true - (flips effect trace).count false

def worth (active : Bool) : Int := if active then 1 else 0

/-- Where the hooks of an effect stand, and whether the effect applies. -/
structure Standing where
  phase : Phase
  tally : Int
  active : Bool

def World.standing (w : World π) (effect : EffectName) : Standing :=
  ⟨StatusEffects.phase effect w.trace, StatusEffects.tally effect w.trace,
    w.entity.hasEffect effect⟩

namespace Standing

structure Leads (s s' : Standing) : Prop where
  tally : s'.tally - s.tally = worth s'.active - worth s.active
  phase : s.phase.fits s.active = true →
    s'.phase.fits s'.active = true ∧ s.phase.leads s'.phase = true

theorem Leads.refl (s : Standing) : s.Leads s :=
  ⟨by omega, fun fits => ⟨fits, s.phase.leads_refl⟩⟩

theorem Leads.trans {s₁ s₂ s₃ : Standing} (first : s₁.Leads s₂) (second : s₂.Leads s₃) :
    s₁.Leads s₃ := by
  have tally := first.tally
  have tally' := second.tally
  refine ⟨by omega, fun fits => ?_⟩
  obtain ⟨fits₂, leads⟩ := first.phase fits
  obtain ⟨fits₃, leads'⟩ := second.phase fits₂
  exact ⟨fits₃, Phase.leads_trans leads leads'⟩

def sign (active : Bool) : Int := if active then 1 else -1

/-- An effect flips and its hook starts. -/
theorem Leads.flip (p : Phase) (tally : Int) (active : Bool) :
    Leads ⟨p, tally, !active⟩ ⟨p.turn active, tally + sign active, active⟩ := by
  refine ⟨?_, p.fits_turn active⟩
  cases active
  · change tally + -1 - tally = 0 - 1
    omega
  · change tally + 1 - tally = 1 - 0
    omega

/-- An effect that applies is taken out, and its hook starts after something else has happened. -/
theorem Leads.end {p : Phase} {tally : Int} {s : Standing}
    (meanwhile : Leads ⟨p.leave, tally, false⟩ s) :
    Leads ⟨p, tally, true⟩ ⟨s.phase.turn false, s.tally + sign false, s.active⟩ := by
  have before : s.tally - tally = worth s.active - 0 := meanwhile.tally
  refine ⟨?_, fun fits => ?_⟩
  · change s.tally + -1 - tally = worth s.active - 1
    omega
  · obtain ⟨fits', leads⟩ := meanwhile.phase (p.leave_fits fits)
    exact p.fits_turn_after s.phase s.active fits fits' leads

/-- An effect that does not apply is taken out. -/
theorem Leads.drop (p : Phase) (tally : Int) :
    Leads ⟨p, tally, false⟩ ⟨p.leave, tally, false⟩ :=
  ⟨(Int.sub_self _).trans (Int.sub_self _).symm, p.fits_leave⟩

end Standing

/-! ### What happens on the way -/

section

variable {effect : EffectName} {o : Occurrence π}

theorem Phase.next_of_silent {p : Phase} (silent : o.flip? effect = none)
    (stays : o.removes effect = false) : p.next effect o = p := by
  rw [Phase.next, silent]
  exact if_neg (Bool.eq_false_iff.1 stays)

theorem Occurrence.silent_of_isIdle (idle : o.isIdle = true) :
    o.flip? effect = none ∧ o.removes effect = false := by
  cases o <;> first | exact ⟨rfl, rfl⟩ | cases idle

theorem Occurrence.silent_of_isOfTime (ofTime : o.isOfTime = true) :
    o.flip? effect = none ∧ o.removes effect = false := by
  cases o <;> first | exact ⟨rfl, rfl⟩ | cases ofTime

theorem flip?_hookStarted_of_ne {hook : Hook} {seen : Entity π}
    (other : ∀ active, hook ≠ .ofFlip effect active) :
    (Occurrence.hookStarted hook seen).flip? effect = none := by
  cases hook with
  | activated name => exact if_neg fun same => other true (congrArg Hook.activated same)
  | deactivated name => exact if_neg fun same => other false (congrArg Hook.deactivated same)
  | stackAdded name => rfl
  | custom name serial index => rfl
  | modified stat => rfl

theorem flip?_ofFlip (effect : EffectName) (active : Bool) (seen : Entity π) :
    (Occurrence.hookStarted (.ofFlip effect active) seen).flip? effect = some active := by
  cases active
  · exact if_pos rfl
  · exact if_pos rfl

theorem flip?_eq_some {active : Bool} (starts : o.flip? effect = some active) :
    ∃ seen, o = .hookStarted (.ofFlip effect active) seen := by
  unfold Occurrence.flip? at starts
  split at starts
  · split at starts
    · rename_i name seen same
      cases starts
      exact ⟨seen, by rw [same]; rfl⟩
    · cases starts
  · split at starts
    · rename_i name seen same
      cases starts
      exact ⟨seen, by rw [same]; rfl⟩
    · cases starts
  · cases starts

theorem removes_iff : o.removes effect = true ↔ ∃ seen, o = .effectRemoved effect seen := by
  constructor
  · intro removes
    unfold Occurrence.removes at removes
    split at removes
    · rename_i name seen
      exact ⟨seen, by rw [of_decide_eq_true removes]⟩
    · cases removes
  · rintro ⟨seen, rfl⟩
    exact decide_eq_true rfl

section

variable {trace asides : List (Occurrence π)}
  (silent : ∀ o ∈ asides, o.flip? effect = none ∧ o.removes effect = false)

include silent

theorem phase_of_silent : phase effect (asides ++ trace) = phase effect trace := by
  induction asides with
  | nil => rfl
  | cons o rest ih =>
      obtain ⟨quiet, stays⟩ := silent o (List.mem_cons_self ..)
      change (phase effect (rest ++ trace)).next effect o = _
      rw [Phase.next_of_silent quiet stays]
      exact ih fun o member => silent o (List.mem_cons_of_mem _ member)

theorem tally_of_silent : tally effect (asides ++ trace) = tally effect trace := by
  unfold tally flips
  rw [List.filterMap_append, List.filterMap_eq_nil_iff.2 fun o member => (silent o member).1,
    List.nil_append]

end

/-- The hook for a flip starts. -/
theorem standing_begin (w : World π) (active : Bool) :
    (w.begin (.ofFlip effect active)).standing effect =
      ⟨(phase effect w.trace).turn active, tally effect w.trace + Standing.sign active,
        w.entity.hasEffect effect⟩ := by
  have start := flip?_ofFlip effect active w.entity
  have phases : phase effect (w.begin (.ofFlip effect active)).trace =
      (phase effect w.trace).turn active := by
    change (phase effect w.trace).next effect _ = _
    rw [Phase.next, start]
  have starts : flips effect (w.begin (.ofFlip effect active)).trace =
      active :: flips effect w.trace :=
    List.filterMap_cons_some start
  have tallies : tally effect (w.begin (.ofFlip effect active)).trace =
      tally effect w.trace + Standing.sign active := by
    unfold tally
    rw [starts]
    cases active
    · simp [Standing.sign]
      omega
    · simp [Standing.sign]
      omega
  unfold World.standing
  rw [phases, tallies]
  rfl

theorem standing_of_found {w : World π} {live : LiveEffect π}
    (found : w.entity.effects.get? effect = some live) :
    w.standing effect = ⟨phase effect w.trace, tally effect w.trace, live.active⟩ := by
  unfold World.standing Entity.hasEffect
  rw [found]
  rfl

/-- A live effect is taken out. -/
theorem standing_gone (w : World π) (live : LiveEffect π) :
    (Engine.Gone effect live w).standing effect =
      ⟨(phase effect w.trace).leave, tally effect w.trace, false⟩ := by
  have phases : phase effect (Engine.Gone effect live w).trace = (phase effect w.trace).leave :=
    if_pos (decide_eq_true rfl)
  have absent : (Engine.Gone effect live w).entity.hasEffect effect = false :=
    (Entity.hasEffect_dropEffect ..).trans (if_pos rfl)
  unfold World.standing
  rw [phases, absent]
  rfl

end

/-! ### Steps -/

variable [CustomTrigger π]

/-- A step from one world to the next as the monitor of an effect sees it. -/
def Monitored (effect : EffectName) (w w' : World π) : Prop :=
  w.entity.Attended → w'.entity.Attended ∧ (w.standing effect).Leads (w'.standing effect)

namespace Monitored

variable {effect : EffectName} {w w' : World π}

theorem steady (effect : EffectName) : Act.Steady (Monitored (π := π) effect) where
  refl w attended := ⟨attended, .refl _⟩
  trans first second attended := by
    obtain ⟨attended₂, leads⟩ := first attended
    obtain ⟨attended₃, leads'⟩ := second attended₂
    exact ⟨attended₃, leads.trans leads'⟩

/-- A change under which the hooks stay where they stand. -/
theorem still {e : Entity π} (asides : List (Occurrence π)) (keeps : w.entity.Attended → e.Attended)
    (silent : ∀ o ∈ asides, o.flip? effect = none ∧ o.removes effect = false)
    (same : w.entity.Attended → e.hasEffect effect = w.entity.hasEffect effect) :
    Monitored effect w { w with entity := e, trace := asides ++ w.trace } := by
  intro attended
  refine ⟨keeps attended, ?_⟩
  have stays : World.standing { w with entity := e, trace := asides ++ w.trace } effect =
      w.standing effect := by
    unfold World.standing
    dsimp only
    rw [phase_of_silent silent, tally_of_silent silent, same attended]
  rw [stays]
  exact .refl _

theorem mark (w : World π) {o : Occurrence π}
    (silent : o.flip? effect = none ∧ o.removes effect = false) :
    Monitored effect w { w with trace := o :: w.trace } :=
  .still [o] id (List.forall_mem_singleton.2 silent) fun _ => rfl

/-- A hook starts that is none of the two. -/
theorem begins (w : World π) {hook : Hook} (other : ∀ active, hook ≠ .ofFlip effect active) :
    Monitored effect w (w.begin hook) :=
  .still [.hookStarted hook w.entity] id
    (List.forall_mem_singleton.2 ⟨flip?_hookStarted_of_ne other, rfl⟩) fun _ => rfl

section

variable {rules : Rulebook π} {name : EffectName} {live : LiveEffect π} {active : Bool}

/-- Another effect flips. -/
theorem ofFlipped (other : name ≠ effect)
    (ran : Flipped rules (Monitored effect) name active w w') : Monitored effect w w' := by
  unfold Flipped at ran
  split at ran
  · rw [ran]
    exact (steady effect).refl w
  · refine (steady effect).trans (.begins w fun active' same => ?_) ran
    cases active <;> cases active' <;> cases same <;> exact other rfl

/-- Another effect is taken out. -/
theorem gone (other : name ≠ effect) (found : w.entity.effects.get? name = some live) :
    Monitored effect w (Engine.Gone name live w) := by
  refine .still [_] (fun attended => attended.dropEffect found)
    (List.forall_mem_singleton.2 ⟨rfl, decide_eq_false other⟩) fun _ => ?_
  rw [Entity.hasEffect_dropEffect, if_neg (Ne.symm other)]

/-- The effect flips and the hook for that runs. -/
theorem flipped {count : UInt32} {asides : List (Occurrence π)}
    (found : w.entity.effects.get? effect = some live) (changes : live.active ≠ active)
    (idle : Idle asides)
    (ran : Monitored effect (World.begin
      { w with entity := w.entity.storeCount effect count active, trace := asides ++ w.trace }
      (.ofFlip effect active)) w') :
    Monitored effect w w' := by
  intro attended
  obtain ⟨attended', leads⟩ := ran (attended.storeCount effect count active)
  refine ⟨attended', .trans ?_ leads⟩
  have silent (o : Occurrence π) (member : o ∈ asides) :
      o.flip? effect = none ∧ o.removes effect = false :=
    Occurrence.silent_of_isIdle (idle o member)
  rw [standing_of_found found, Bool.eq_not.2 changes, standing_begin, phase_of_silent silent,
    tally_of_silent silent, Entity.hasEffect_storeCount found, if_pos rfl]
  exact .flip _ _ active

/-- The effect is taken out while it does not apply. -/
theorem dropped (found : w.entity.effects.get? effect = some live) (inactive : live.active = false) :
    Monitored effect w (Engine.Gone effect live w) := by
  intro attended
  refine ⟨attended.dropEffect found, ?_⟩
  rw [standing_gone, standing_of_found found, inactive]
  exact .drop _ _

/-- The effect is taken out while it applies. Its modifiers go before the hook for that runs, so the
world may have moved on by then. -/
theorem ended {w₁ w₂ : World π} (found : w.entity.effects.get? effect = some live)
    (applies : live.active = true) (removed : Monitored effect (Engine.Gone effect live w) w₁)
    (ran : Monitored effect (w₁.begin (.ofFlip effect false)) w₂) : Monitored effect w w₂ := by
  intro attended
  obtain ⟨attended₁, meanwhile⟩ := removed (attended.dropEffect found)
  obtain ⟨attended₂, leads⟩ := ran attended₁
  refine ⟨attended₂, .trans ?_ leads⟩
  rw [standing_gone] at meanwhile
  rw [standing_begin, standing_of_found found, applies]
  exact meanwhile.end

end

end Monitored

omit [CustomTrigger π] in
/-- Of an effect with both hooks, the hook for a flip has started. -/
theorem Flipped.of_both {rules : Rulebook π} {R : World π → World π → Prop} {effect : EffectName}
    {d : EffectDefinition π} (registered : rules.effects.get? effect = some d)
    (begins : d.onActivate.isSome = true) (ceases : d.onDeactivate.isSome = true) {active : Bool}
    {w w' : World π} (ran : Flipped rules R effect active w w') :
    R (w.begin (.ofFlip effect active)) w' := by
  have there : (rules.flipScript? effect active).isSome = true := by
    cases active with
    | true => rwa [Rulebook.flipScript?, registered]
    | false => rwa [Rulebook.flipScript?, registered]
  obtain ⟨script, hook⟩ := Option.isSome_iff_exists.1 there
  unfold Flipped at ran
  rwa [hook] at ran

namespace Engine

open Act

variable {rules : Rulebook π} {nested : Nested π} {effect : EffectName}

theorem passTime_monitored (reacts : ∀ owner, (react nested rules owner).Keeps (Monitored effect))
    (delta : Float32) : (passTime nested rules delta).Keeps (Monitored effect) := by
  refine passTime_paces (Monitored.steady effect) (fun moves spares happened => ?_)
    (fun change walk w => .still [] (.walks walk) (fun _ => nofun) fun _ => rfl) reacts delta
  refine .still _ moves.attended (fun o member => ?_) fun _ => (spares fun _ => True).active effect
  exact (happened o member).elim Occurrence.silent_of_isIdle Occurrence.silent_of_isOfTime

/-- With both hooks, every step of the engine is one that the monitor lets pass. -/
theorem follows_monitored {d : EffectDefinition π} (registered : rules.effects.get? effect = some d)
    (begins : d.onActivate.isSome = true) (ceases : d.onDeactivate.isSome = true) :
    Follows rules (fun _ => True) (Monitored effect) fun _ => Monitored effect := by
  have steady := Monitored.steady (π := π) effect
  have own {active : Bool} {w w' : World π}
      (ran : Flipped rules (Monitored effect) effect active w w') :=
    ran.of_both registered begins ceases
  have heard (name : EffectName) (w : World π) : Monitored effect w (Heard name w) :=
    .mark w ⟨rfl, rfl⟩
  refine
    { steady := steady
      loose := fun _ => steady
      loosen := id
      tighten := fun {_ _ w'} before => steady.trans before (.mark w' ⟨rfl, rfl⟩)
      told := ?_
      restacked := ?_
      flipped := ?_
      dropped := ?_
      ended := ?_
      started := ?_
      running := fun w hooks => .still [] id (fun _ => nofun) fun _ => rfl
      called := fun _ _ _ _ reply w => .mark w ⟨rfl, rfl⟩
      uncalled := fun _ _ _ _ _ _ other => absurd trivial other
      passes := fun _ => passTime_monitored }
  · intro w w' stats e asides moves spares idle told
    refine steady.trans (.still asides moves.attended
      (fun o member => Occurrence.silent_of_isIdle (idle o member)) fun attended => ?_)
      (told.steady steady fun w stat => .mark w ⟨rfl, rfl⟩)
    exact (spares attended.tidy).active effect
  · intro w name e asides moves restacks idle
    refine .still asides moves.attended
      (fun o member => Occurrence.silent_of_isIdle (idle o member)) fun attended => ?_
    exact (restacks attended.tidy).active effect
  · intro w w' name live count active asides found changes idle ran
    refine steady.trans ?_ (heard name w')
    by_cases here : name = effect
    · subst here
      exact .flipped found changes idle (own ran)
    · refine steady.trans (.still asides (fun attended => attended.storeCount name count active)
        (fun o member => Occurrence.silent_of_isIdle (idle o member)) fun _ => ?_)
        (.ofFlipped here ran)
      rw [Entity.hasEffect_storeCount found, if_neg (Ne.symm here)]
  · intro w name live found _ inactive
    by_cases here : name = effect
    · subst here
      exact .dropped found inactive
    · exact .gone here found
  · intro w w₁ w₂ name live found _ active removed ran
    refine steady.trans ?_ (heard name w₂)
    by_cases here : name = effect
    · subst here
      exact .ended found active removed (own ran)
    · exact steady.trans (steady.trans (.gone here found) removed) (.ofFlipped here ran)
  · intro hook script starts other w
    refine .begins w fun active same => ?_
    rw [same] at other
    cases active <;> cases other

end Engine

/-! ### What the phase tells -/

section

omit [CustomTrigger π]

variable {effect : EffectName} {trace : List (Occurrence π)}

theorem Leaving.headD (leaving : Leaving effect trace) : (flips effect trace).headD false = true := by
  obtain ⟨since, gone, earlier, rfl, silent, applied⟩ := leaving
  have split : flips effect (since ++ .effectRemoved effect gone :: earlier) =
      flips effect since ++ flips effect earlier := List.filterMap_append
  rwa [split, silent, List.nil_append]

theorem Leaving.cons {o : Occurrence π} (leaving : Leaving effect trace)
    (silent : o.flip? effect = none) : Leaving effect (o :: trace) := by
  obtain ⟨since, gone, earlier, rfl, before, applied⟩ := leaving
  exact ⟨o :: since, gone, earlier, rfl, (List.filterMap_cons_none silent).trans before, applied⟩

theorem Overtaken.cons (o : Occurrence π) (overtaken : Overtaken effect trace) :
    Overtaken effect (o :: trace) := by
  obtain ⟨later, seen, earlier, rfl, leaving⟩ := overtaken
  exact ⟨o :: later, seen, earlier, rfl, leaving⟩

theorem takeTurns_of_append {later starts : List Bool} (turns : takeTurns (later ++ starts) = true) :
    takeTurns starts = true := by
  induction later with
  | nil => exact turns
  | cons start rest ih =>
      rw [List.cons_append, takeTurns, Bool.and_eq_true] at turns
      exact ih turns.2

/-- Where an effect is overtaken, its hooks do not take turns. -/
theorem Overtaken.not_takeTurns (overtaken : Overtaken effect trace) :
    takeTurns (flips effect trace) = false := by
  obtain ⟨later, seen, earlier, rfl, leaving⟩ := overtaken
  have split : flips effect (later ++ .hookStarted (.activated effect) seen :: earlier) =
      flips effect later ++ true :: flips effect earlier :=
    List.filterMap_append.trans
      (congrArg _ (List.filterMap_cons_some (flip?_ofFlip effect true seen)))
  rw [split]
  refine Bool.eq_false_iff.2 fun turns => ?_
  have first := takeTurns_of_append turns
  rw [takeTurns, leaving.headD] at first
  cases first

def Phase.Tells (effect : EffectName) (trace : List (Occurrence π)) : Phase → Prop
  | .off => takeTurns (flips effect trace) = true ∧ (flips effect trace).headD false = false
  | .on => takeTurns (flips effect trace) = true ∧ (flips effect trace).headD false = true
  | .leaving => takeTurns (flips effect trace) = true ∧ Leaving effect trace
  | .overtaken => Overtaken effect trace
  | .broken => True

theorem Phase.Tells.skip {p : Phase} {o : Occurrence π} (tells : p.Tells effect trace)
    (silent : o.flip? effect = none) : p.Tells effect (o :: trace) := by
  have same : flips effect (o :: trace) = flips effect trace := List.filterMap_cons_none silent
  cases p with
  | off => exact ⟨same ▸ tells.1, same ▸ tells.2⟩
  | on => exact ⟨same ▸ tells.1, same ▸ tells.2⟩
  | leaving => exact ⟨same ▸ tells.1, tells.2.cons silent⟩
  | overtaken => exact Overtaken.cons o tells
  | broken => trivial

theorem Phase.Tells.leave {p : Phase} (tells : p.Tells effect trace) (seen : Entity π) :
    p.leave.Tells effect (.effectRemoved effect seen :: trace) := by
  cases p with
  | on => exact ⟨tells.1, [], seen, trace, rfl, rfl, tells.2⟩
  | off => exact Phase.Tells.skip (p := .off) tells rfl
  | leaving => exact Phase.Tells.skip (p := .leaving) tells rfl
  | overtaken => exact Overtaken.cons _ tells
  | broken => trivial

theorem Phase.Tells.turn {p : Phase} (tells : p.Tells effect trace) (active : Bool)
    (seen : Entity π) :
    (p.turn active).Tells effect (.hookStarted (.ofFlip effect active) seen :: trace) := by
  have grown : flips effect (.hookStarted (.ofFlip effect active) seen :: trace) =
      active :: flips effect trace := List.filterMap_cons_some (flip?_ofFlip effect active seen)
  have turns (before : (flips effect trace).headD false = !active)
      (took : takeTurns (flips effect trace) = true) :
      takeTurns (active :: flips effect trace) = true := by
    rw [takeTurns, before, took, Bool.and_true]
    cases active <;> rfl
  cases active with
  | true =>
      cases p with
      | off => exact ⟨grown ▸ turns tells.2 tells.1, grown ▸ rfl⟩
      | on => trivial
      | leaving => exact ⟨[], seen, trace, rfl, tells.2⟩
      | overtaken => exact Overtaken.cons _ tells
      | broken => trivial
  | false =>
      cases p with
      | off => trivial
      | on => exact ⟨grown ▸ turns tells.2 tells.1, grown ▸ rfl⟩
      | leaving => exact ⟨grown ▸ turns tells.2.headD tells.1, grown ▸ rfl⟩
      | overtaken => exact Overtaken.cons _ tells
      | broken => trivial

theorem phase_tells (effect : EffectName) (trace : List (Occurrence π)) :
    (phase effect trace).Tells effect trace := by
  induction trace with
  | nil => exact ⟨rfl, rfl⟩
  | cons o rest ih =>
      change ((phase effect rest).next effect o).Tells effect (o :: rest)
      unfold Phase.next
      cases starts : o.flip? effect with
      | some active =>
          obtain ⟨seen, rfl⟩ := flip?_eq_some starts
          exact ih.turn active seen
      | none =>
          dsimp only
          split
          · rename_i removes
            obtain ⟨seen, rfl⟩ := removes_iff.1 removes
            exact ih.leave seen
          · exact ih.skip starts

end

/-- The two hooks of an effect that has both are started in balance: there is one more start for a
beginning if the effect applies, and as many for ends if it does not. They take turns, beginning with a
beginning, exactly if the effect was never overtaken, and then the latest start tells whether the
effect applies. -/
theorem hooks_take_turns {rules : Rulebook π} {effect : EffectName} {d : EffectDefinition π}
    (registered : rules.effects.get? effect = some d) (begins : d.onActivate.isSome = true)
    (ceases : d.onDeactivate.isSome = true) {snapshots : Snapshot → Prop}
    {calls : Entity π → Call π → Prop} {w : World π} (reached : Reached rules snapshots calls w) :
    (flips effect w.trace).count true =
        (flips effect w.trace).count false + (if w.entity.hasEffect effect then 1 else 0) ∧
      (takeTurns (flips effect w.trace) = true ↔ ¬Overtaken effect w.trace) ∧
      (¬Overtaken effect w.trace →
        (flips effect w.trace).headD false = w.entity.hasEffect effect) := by
  let start : Standing := ⟨.off, 0, false⟩
  let kept : World π → Prop := fun w => w.entity.Attended ∧ start.Leads (w.standing effect)
  obtain ⟨-, leads⟩ : kept w := by
    refine reached.of_follows (Engine.follows_monitored registered begins ceases)
      (fun w w' turns before => ?_) (fun values => ⟨.start values, .refl _⟩) fun _ _ _ => trivial
    obtain ⟨attended, leads⟩ := turns before.1
    exact ⟨attended, before.2.trans leads⟩
  have phases : (phase effect w.trace).fits (w.entity.hasEffect effect) = true ∧
      Phase.off.leads (phase effect w.trace) = true := leads.phase rfl
  have balance : tally effect w.trace - 0 = worth (w.entity.hasEffect effect) - 0 := leads.tally
  have tells := phase_tells effect w.trace
  generalize phase effect w.trace = p at phases tells
  refine ⟨?_, ⟨fun turns overtaken => ?_, fun never => ?_⟩, fun never => ?_⟩
  · unfold tally worth at balance
    split at balance
    · rw [if_pos ‹_›]
      omega
    · rw [if_neg ‹_›]
      omega
  · rw [overtaken.not_takeTurns] at turns
    cases turns
  · cases p with
    | off => exact tells.1
    | on => exact tells.1
    | leaving => cases phases.2
    | overtaken => exact absurd tells never
    | broken => cases phases.1
  · cases p with
    | off => exact tells.2.trans (Bool.not_eq_true' _ ▸ phases.1).symm
    | on => exact tells.2.trans phases.1.symm
    | leaving => cases phases.2
    | overtaken => exact absurd tells never
    | broken => cases phases.1

def guardian : EffectDefinition Empty :=
  { EffectDefinition.ofName "guard" with
    modifiers := [.ofParts "health" .add 10]
    onActivate := some fun _ => .done ()
    onDeactivate := some fun _ => .done () }

/-- An effect that brings the other one back as soon as health is full. -/
def vigil : EffectDefinition Empty :=
  { EffectDefinition.ofName "vigil" with
    customEffects := [{
      condition := .ofTrigger (.threshold ⟨"health", .greaterEquals, 100, true⟩)
      action := fun _ => .call (.addStack "guard" (.ofValue 1) none) fun _ => .done () }] }

def vigilRules : Rulebook Empty :=
  ((do
    let rules ← Rulebook.builtin.registerStat "health" 100
    let rules ← rules.registerEffect guardian
    rules.registerEffect vigil).toOption).getD .builtin

/-- An effect that comes, goes and comes again. -/
theorem guard_takes_turns : ∃ w : World Empty,
    vigilRules.effects.get? "guard" = some guardian ∧
    Reached vigilRules (fun _ => True) (fun _ _ => True) w ∧
    flips "guard" w.trace = [true, false, true] ∧ ¬Overtaken "guard" w.trace ∧
    w.entity.hasEffect "guard" = true := by
  have made : ((Engine.performAll vigilRules 8
      [.addStack "guard" (.ofValue 1) none, .removeEffect "guard",
        .addStack "guard" (.ofValue 1) none] (.ofEntity .new)).any fun w =>
      flips "guard" w.trace = [true, false, true]) = true := by
    decide +kernel
  obtain ⟨w, run, checked⟩ := (Option.any_eq_true ..).1 made
  have starts := of_decide_eq_true checked
  have reached : Reached vigilRules (fun _ => True) (fun _ _ => True) w :=
    Engine.reached_of_performAll .new (fun _ _ _ => trivial) run
  have registered : vigilRules.effects.get? "guard" = some guardian := rfl
  obtain ⟨-, turns, latest⟩ := hooks_take_turns registered rfl rfl reached
  have never := turns.1 (by rw [starts]; rfl)
  refine ⟨w, registered, reached, starts, never, ?_⟩
  rw [← latest never, starts]
  rfl

/-- Taking the effect out takes its modifier away, so that health is full and the other effect brings
it back. It applies again before the hook for its end starts, so that hook starts last. -/
theorem guard_overtaken : ∃ w : World Empty,
    vigilRules.effects.get? "guard" = some guardian ∧
    Reached vigilRules (fun _ => True) (fun _ _ => True) w ∧
    flips "guard" w.trace = [false, true, true] ∧ takeTurns (flips "guard" w.trace) = false ∧
    w.entity.hasEffect "guard" = true := by
  have made : ((Engine.performAll vigilRules 8
      [.addStack "guard" (.ofValue 1) none, .addStack "vigil" (.ofValue 1) none,
        .removeEffect "guard"] (.ofEntity .new)).any fun w =>
      flips "guard" w.trace = [false, true, true] && w.entity.hasEffect "guard") = true := by
    decide +kernel
  obtain ⟨w, run, checked⟩ := (Option.any_eq_true ..).1 made
  rw [Bool.and_eq_true, decide_eq_true_eq] at checked
  obtain ⟨starts, active⟩ := checked
  have reached : Reached vigilRules (fun _ => True) (fun _ _ => True) w :=
    Engine.reached_of_performAll .new (fun _ _ _ => trivial) run
  refine ⟨w, rfl, reached, starts, ?_, active⟩
  rw [starts]
  rfl

end StatusEffects
