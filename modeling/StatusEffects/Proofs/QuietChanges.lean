import StatusEffects.Proofs.Run
import StatusEffects.Proofs.StackCaps
import StatusEffects.Proofs.Wired

/-!
The quiet changes that the engine makes to an entity, and the notices that follow them.

The engine makes the same moves whatever a proof is about: it changes the entity, announces the
stats that the change concerns, and runs the hook and calls the listeners for an effect that begins
or ceases to apply.
-/

set_option autoImplicit false

namespace StatusEffects

variable {π : Type} [CustomTrigger π]

/-! ### Moves -/

def Stack.Lasts (rules : Rulebook π) (effect : EffectName) (s : Stack π) : Prop :=
  s.duration = .absent → ∀ d, rules.effects.get? effect = some d → d.duration = .absent

/-- A quiet change of an entity, with the stats that have to be announced after it and the effect
whose listeners have to be called. -/
inductive Entity.Move (rules : Rulebook π) (e : Entity π) :
    List StatName → List EffectName → Entity π → Prop where
  | store (stat : StatName) (value : StatValue) :
      Move rules e [stat] [] { e with values := e.values.insert stat value }
  | modify (modifying : List StatName) : Move rules e [] [] { e with modifying := modifying }
  | acquireModifier : Move rules e [] [] e.acquireModifier.2
  | releaseModifier (m : Modifier π) : Move rules e [] [] (e.releaseModifier m)
  | acquireStack : Move rules e [] [] e.acquireStack.2
  | releaseStack (s : Stack π) : Move rules e [] [] (e.releaseStack s)
  | takeHandle : Move rules e [] [] e.takeHandle.2
  | addModifier {m : Modifier π} (new : m.id = e.nextHandle) :
      Move rules e [m.stat] [] (e.takeHandle.2.addModifier rules.operators m)
  | updateModifier {stat : StatName} {id : Handle} {m : Modifier π} {stats : List StatName}
      (found : e.modifiers.find? stat id = some m) (owed : m.refresh.2 = true → stat ∈ stats) :
      Move rules e stats [] (e.updateModifier stat id m.refresh.1)
  | dropModifier {stat : StatName} {id : Handle} {e' : Entity π}
      (dropped : e.dropModifier? stat id = some e') : Move rules e [stat] [] e'
  | dropModifiersOf {source : SourceTag} {stats : List StatName}
      (owed : ∀ m ∈ e.modifiers.ofSource (some source), m.stat ∈ stats) :
      Move rules e stats [] (e.dropModifiersOf source)
  | pushStack {effect : EffectName} {s : Stack π} (live : e.effects.contains effect = true)
      (new : s.id = e.nextHandle) (lasts : s.Lasts rules effect) :
      Move rules e [] [] (e.takeHandle.2.pushStack effect s)
  | updateStack {effect : EffectName} {id : Handle} {s : Stack π}
      (found : e.stack? effect id = some s) (value : UInt32) :
      Move rules e [] [] (e.updateStack effect id ({ s with value := value } : Stack π).refresh.1)
  | stimulate (owner : Owner) (stimulus : Stimulus) (r : Readings)
      (there : e.condition owner ≠ .absent) :
      Move rules e [] []
        (e.setCondition owner (Engine.Stimulus.apply stimulus r (e.condition owner)).1)
  | mergeDuration {owner : Owner} {stacking : Stacking} {r : Readings} {incoming c : Condition π}
      (there : e.condition owner ≠ .absent)
      (merged : Engine.mergedDuration stacking r (e.condition owner) incoming = c) :
      Move rules e [] [] ((e.setCondition owner c).subscribe owner
        ((e.setCondition owner c).condition owner).interests)
  | detachStack {effect : EffectName} {id : Handle} {e' : Entity π}
      (detached : e.detachStack? effect id = some e') : Move rules e [] [] e'
  | setStacks {effect : EffectName} {live : LiveEffect π} {held : List (Stack π)}
      (found : e.effects.get? effect = some live) (drawn : List.Forall₂ Stack.Drawn held live.held) :
      Move rules e [] [] (e.setStacks effect held)
  | storeCount {effect : EffectName} {live : LiveEffect π} {effects : List EffectName}
      (found : e.effects.get? effect = some live) (count : UInt32) (active : Bool)
      (owed : live.active ≠ active → effect ∈ effects) :
      Move rules e [] effects (e.storeCount effect count active)
  | addEffect {name : EffectName} {d : EffectDefinition π}
      (registered : rules.effects.get? name = some d)
      (absent : e.effects.contains d.effect = false) (r : Readings) :
      Move rules e [] [] (e.acquireEffect.2.addEffect
        { e.acquireEffect.1 with effect := d.effect }
        (d.customEffects.map fun custom => custom.condition.pristine.arm r))
  | dropEffect {effect : EffectName} {live : LiveEffect π} {effects : List EffectName}
      (found : e.effects.get? effect = some live) (owed : live.active = true → effect ∈ effects) :
      Move rules e [] effects (e.dropEffect effect live)

inductive Entity.Moves (rules : Rulebook π) (stats : List StatName) (e : Entity π) :
    Entity π → Prop where
  | refl : Moves rules stats e e
  | step {e₁ e₂ : Entity π} {owed : List StatName} (before : Moves rules stats e e₁)
      (move : e₁.Move rules owed [] e₂) (listed : ∀ stat ∈ owed, stat ∈ stats) :
      Moves rules stats e e₂

namespace Entity

variable {rules : Rulebook π} {stats owed : List StatName} {e e₁ e₂ : Entity π}

theorem Move.moves (move : e.Move rules stats [] e₁) : e.Moves rules stats e₁ :=
  .step .refl move fun _ => id

theorem Moves.then (before : e.Moves rules stats e₁) (move : e₁.Move rules stats [] e₂) :
    e.Moves rules stats e₂ :=
  .step before move fun _ => id

/-- A move that concerns no stat may come in between. -/
theorem Moves.aside (before : e.Moves rules stats e₁) (move : e₁.Move rules [] [] e₂) :
    e.Moves rules stats e₂ :=
  .step before move fun _ => nofun

theorem Moves.detachStacks (before : e.Moves rules stats e₁) (effect : EffectName)
    (ids : List Handle) : e.Moves rules stats (e₁.detachStacks effect ids).2 :=
  detachStacks_induct effect (fun _ _ _ detached moves => moves.aside (.detachStack detached)) ids
    before

end Entity

/-! ### Notices -/

/-- Whether an occurrence is neither a notice about a stat, an effect or its stacks, nor the start of a
hook or a call by one, nor about time. -/
def Occurrence.isAside : Occurrence π → Bool
  | .statChanged .. | .effectChanged .. | .stacksChanged .. | .hookStarted .. | .called .. => false
  | o => !o.isOfTime

def Asides (asides : List (Occurrence π)) : Prop := ∀ o ∈ asides, o.isAside = true

omit [CustomTrigger π] in
theorem Asides.nil : Asides ([] : List (Occurrence π)) :=
  fun _ member => (List.not_mem_nil member).elim

omit [CustomTrigger π] in
theorem Asides.cons {o : Occurrence π} {asides : List (Occurrence π)} (aside : o.isAside = true)
    (rest : Asides asides) : Asides (o :: asides) :=
  List.forall_mem_cons.2 ⟨aside, rest⟩

def Occurrence.isIdle : Occurrence π → Bool
  | .effectRemoved .. => false
  | o => o.isAside

def Idle (asides : List (Occurrence π)) : Prop := ∀ o ∈ asides, o.isIdle = true

omit [CustomTrigger π] in
theorem Idle.nil : Idle ([] : List (Occurrence π)) :=
  fun _ member => (List.not_mem_nil member).elim

omit [CustomTrigger π] in
theorem Idle.cons {o : Occurrence π} {asides : List (Occurrence π)} (idle : o.isIdle = true)
    (rest : Idle asides) : Idle (o :: asides) :=
  List.forall_mem_cons.2 ⟨idle, rest⟩

omit [CustomTrigger π] in
theorem Idle.asides {asides : List (Occurrence π)} (idle : Idle asides) : Asides asides := by
  intro o member
  have passes := idle o member
  cases o <;> first | exact passes | cases passes

/-- Stats were announced one after the other, and after each notice the world went on. -/
def Told (R : World π → World π → Prop) : List StatName → World π → World π → Prop
  | [], w, w' => w' = w
  | stat :: rest, w, w' =>
    ∃ w₁, R { w with trace := .statChanged stat w.entity :: w.trace } w₁ ∧ Told R rest w₁ w'

omit [CustomTrigger π] in
/-- A chain of announcements keeps what steps and notices keep. -/
theorem Told.steady {R : World π → World π → Prop} (steady : Act.Steady R)
    (noticed : ∀ w stat, R w { w with trace := .statChanged stat w.entity :: w.trace })
    {stats : List StatName} {w w' : World π} (told : Told R stats w w') : R w w' := by
  induction stats generalizing w with
  | nil =>
      rw [told]
      exact steady.refl w
  | cons stat rest ih =>
      obtain ⟨w₁, first, later⟩ := told
      exact steady.trans (steady.trans (noticed w stat) first) (ih later)

def World.begin (w : World π) (hook : Hook) : World π :=
  { w with running := hook :: w.running, trace := .hookStarted hook w.entity :: w.trace }

def Flipped (rules : Rulebook π) (R : World π → World π → Prop) (effect : EffectName)
    (active : Bool) (w w' : World π) : Prop :=
  match rules.flipScript? effect active with
  | none => w' = w
  | some _ => R (w.begin (.ofFlip effect active)) w'

omit [CustomTrigger π] in
theorem Flipped.steady {rules : Rulebook π} {R : World π → World π → Prop} (steady : Act.Steady R)
    (begins : ∀ (w : World π) hook, R w (w.begin hook)) {effect : EffectName} {active : Bool}
    {w w' : World π} (flipped : Flipped rules R effect active w w') : R w w' := by
  unfold Flipped at flipped
  split at flipped
  · rw [flipped]
    exact steady.refl w
  · exact steady.trans (begins w _) flipped

/-- A script may make a call, depending on the replies to earlier ones and on what it sees. -/
inductive Script.Makes {α : Type} : Script π α → Call π → Prop where
  | here {c : Call π} {next : c.Reply → Script π α} : Makes (.call c next) c
  | called {c other : Call π} {next : other.Reply → Script π α} {reply : other.Reply}
      (later : Makes (next reply) c) : Makes (.call other next) c
  | looked {c : Call π} {next : Sight π → Script π α} {sight : Sight π}
      (later : Makes (next sight) c) : Makes (.look next) c
  | noted {c : Call π} {answer : Answer π} {next : Script π α} (later : Makes next c) :
      Makes (.note answer next) c

/-- What serving a request comes to: an announcement begins with its notice, and a hook with its
start. Only the scripts of the rules are run. -/
def Request.Served (rules : Rulebook π) (R : World π → World π → Prop) :
    Request π → World π → World π → Prop
  | .announce stat => fun w w' => R { w with trace := .statChanged stat w.entity :: w.trace } w'
  | .run hook script => fun w w' => rules.Starts hook script → R (w.begin hook) w'

end StatusEffects
