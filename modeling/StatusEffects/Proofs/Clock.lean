import StatusEffects.Proofs.Run

/-!
A clock that follows what happens.

It knows the walks that are open, innermost first, each with the owners whose turn is still to come,
and the owner to which time is to be told next. What the clock can follow to its end is a sequence
of walks in which every owner that waited at the start has one turn, and time is told to those that
wait at their turn.
-/

set_option autoImplicit false

namespace StatusEffects

variable {π : Type}

structure Walk (π : Type) where
  delta : Float32
  /-- The entity as it was when the walk began. -/
  start : Entity π
  /-- The owners whose turn is still to come. -/
  ahead : List Owner

/-- The open walks, innermost first, and the owner to which time is to be told next. -/
structure Clock (π : Type) where
  walks : List (Walk π)
  due : Option Owner

namespace Clock

/-- What may happen, and how the clock follows it. -/
inductive Step : Clock π → Occurrence π → Clock π → Prop where
  | aside {walks : List (Walk π)} {o : Occurrence π} (aside : o.isOfTime = false) :
      Step ⟨walks, none⟩ o ⟨walks, none⟩
  | opens {walks : List (Walk π)} {delta : Float32} {start : Entity π}
      (distinct : start.timers.owners.Nodup) :
      Step ⟨walks, none⟩ (.walkStarted delta start)
        ⟨⟨delta, start, start.timers.owners⟩ :: walks, none⟩
  | skips {walks : List (Walk π)} {delta : Float32} {start seen : Entity π} {owner : Owner}
      {ahead : List Owner} (left : seen.timers.contains owner = false) :
      Step ⟨⟨delta, start, owner :: ahead⟩ :: walks, none⟩ (.turn owner seen)
        ⟨⟨delta, start, ahead⟩ :: walks, none⟩
  | calls {walks : List (Walk π)} {delta : Float32} {start seen : Entity π} {owner : Owner}
      {ahead : List Owner} (waits : seen.timers.contains owner = true)
      (waited : start.timers.contains owner = true) :
      Step ⟨⟨delta, start, owner :: ahead⟩ :: walks, none⟩ (.turn owner seen)
        ⟨⟨delta, start, ahead⟩ :: walks, some owner⟩
  | asks {walks : List (Walk π)} {owner : Owner} {seen : Entity π} :
      Step ⟨walks, some owner⟩ (.consulted seen) ⟨walks, some owner⟩
  | tells {walk : Walk π} {walks : List (Walk π)} {owner : Owner} {left : Condition π}
      {seen : Entity π} :
      Step ⟨walk :: walks, some owner⟩ (.stimulated owner (.time walk.delta) left seen)
        ⟨walk :: walks, none⟩
  | closes {walks : List (Walk π)} {delta : Float32} {start seen : Entity π} :
      Step ⟨⟨delta, start, []⟩ :: walks, none⟩ (.walkEnded seen) ⟨walks, none⟩

inductive Runs : Clock π → List (Occurrence π) → Clock π → Prop where
  | done (k : Clock π) : Runs k [] k
  | step {k k' k'' : Clock π} {o : Occurrence π} {rest : List (Occurrence π)}
      (first : Step k o k') (later : Runs k' rest k'') : Runs k (o :: rest) k''

variable {k k' k'' : Clock π} {o : Occurrence π} {first second : List (Occurrence π)}

theorem Step.runs (step : Step k o k') : Runs k [o] k' := .step step (.done k')

theorem Runs.append (before : Runs k first k') (after : Runs k' second k'') :
    Runs k (first ++ second) k'' := by
  induction before with
  | done k => exact after
  | step step later ih => exact .step step (ih after)

theorem Runs.asides {walks : List (Walk π)} {happened : List (Occurrence π)}
    (asides : ∀ o ∈ happened, o.isOfTime = false) : Runs ⟨walks, none⟩ happened ⟨walks, none⟩ := by
  induction happened with
  | nil => exact .done _
  | cons o rest ih =>
      rw [List.forall_mem_cons] at asides
      exact .step (.aside asides.1) (ih asides.2)

end Clock

/-! ### What a walk did itself -/

def Occurrence.tick? (owner : Owner) : Occurrence π → Option Float32
  | .stimulated other (.time delta) _ _ => if other = owner then some delta else none
  | _ => none

def Occurrence.turn? (owner : Owner) : Occurrence π → Option (Entity π)
  | .turn other seen => if other = owner then some seen else none
  | _ => none

/-- What happened until a walk ended that is open with so many walks inside it, without what happened
in walks inside it. -/
def ownWalk : Nat → List (Occurrence π) → List (Occurrence π)
  | _, [] => []
  | depth, .walkStarted _ _ :: rest => ownWalk (depth + 1) rest
  | 0, .walkEnded _ :: _ => []
  | depth + 1, .walkEnded _ :: rest => ownWalk depth rest
  | 0, o :: rest => o :: ownWalk 0 rest
  | depth + 1, _ :: rest => ownWalk (depth + 1) rest

/-- What a walk does itself, from an owner to tell and the owners whose turn is still to come. -/
inductive Turns (delta : Float32) (start : Entity π) :
    Option Owner → List Owner → List (Occurrence π) → Prop where
  | done : Turns delta start none [] []
  | aside {o : Occurrence π} {ahead : List Owner} {rest : List (Occurrence π)}
      (aside : o.isOfTime = false) (later : Turns delta start none ahead rest) :
      Turns delta start none ahead (o :: rest)
  | skips {owner : Owner} {seen : Entity π} {ahead : List Owner} {rest : List (Occurrence π)}
      (left : seen.timers.contains owner = false) (later : Turns delta start none ahead rest) :
      Turns delta start none (owner :: ahead) (.turn owner seen :: rest)
  | calls {owner : Owner} {seen : Entity π} {ahead : List Owner} {rest : List (Occurrence π)}
      (waits : seen.timers.contains owner = true) (waited : start.timers.contains owner = true)
      (later : Turns delta start (some owner) ahead rest) :
      Turns delta start none (owner :: ahead) (.turn owner seen :: rest)
  | asks {owner : Owner} {seen : Entity π} {ahead : List Owner} {rest : List (Occurrence π)}
      (later : Turns delta start (some owner) ahead rest) :
      Turns delta start (some owner) ahead (.consulted seen :: rest)
  | tells {owner : Owner} {left : Condition π} {seen : Entity π} {ahead : List Owner}
      {rest : List (Occurrence π)} (later : Turns delta start none ahead rest) :
      Turns delta start (some owner) ahead (.stimulated owner (.time delta) left seen :: rest)

theorem ownWalk_aside {o : Occurrence π} (aside : o.isOfTime = false) (rest : List (Occurrence π)) :
    ownWalk 0 (o :: rest) = o :: ownWalk 0 rest ∧
      ∀ depth, ownWalk (depth + 1) (o :: rest) = ownWalk (depth + 1) rest := by
  cases o with
  | walkStarted delta seen => cases aside
  | walkEnded seen => cases aside
  | _ => exact ⟨rfl, fun _ => rfl⟩

theorem Occurrence.turn?_self (owner : Owner) (seen : Entity π) :
    (Occurrence.turn owner seen).turn? owner = some seen := if_pos rfl

theorem Occurrence.turn?_of_ne {owner other : Owner} (different : other ≠ owner) (seen : Entity π) :
    (Occurrence.turn other seen).turn? owner = none := if_neg different

theorem Occurrence.tick?_self (owner : Owner) (delta : Float32) (left : Condition π)
    (seen : Entity π) :
    (Occurrence.stimulated owner (.time delta) left seen).tick? owner = some delta := if_pos rfl

theorem Occurrence.tick?_of_ne {owner other : Owner} (different : other ≠ owner) (delta : Float32)
    (left : Condition π) (seen : Entity π) :
    (Occurrence.stimulated other (.time delta) left seen).tick? owner = none := if_neg different

theorem Occurrence.turn?_aside {o : Occurrence π} (aside : o.isOfTime = false) (owner : Owner) :
    o.turn? owner = none ∧ o.tick? owner = none := by
  cases o with
  | turn other seen => cases aside
  | stimulated other stimulus left seen =>
      cases stimulus with
      | time delta => cases aside
      | stat name => exact ⟨rfl, rfl⟩
      | restart => exact ⟨rfl, rfl⟩
  | _ => exact ⟨rfl, rfl⟩

namespace Turns

variable {delta : Float32} {start : Entity π} {due : Option Owner} {ahead : List Owner}
  {own : List (Occurrence π)} {owner : Owner}

/-- An owner whose turn has passed has no other one, and time is told to it only if it is due. -/
theorem passed (turns : Turns delta start due ahead own) (outside : owner ∉ ahead) :
    own.filterMap (Occurrence.turn? owner) = [] ∧
      own.filterMap (Occurrence.tick? owner) = if due = some owner then [delta] else [] := by
  induction turns with
  | done => exact ⟨rfl, rfl⟩
  | aside aside later ih =>
      obtain ⟨noTurn, noTick⟩ := Occurrence.turn?_aside aside owner
      rw [List.filterMap_cons_none noTurn, List.filterMap_cons_none noTick]
      exact ih outside
  | skips left later ih =>
      rw [List.mem_cons, not_or] at outside
      rw [List.filterMap_cons_none (Occurrence.turn?_of_ne (Ne.symm outside.1) _)]
      exact ih outside.2
  | calls waits waited later ih =>
      rw [List.mem_cons, not_or] at outside
      rw [List.filterMap_cons_none (Occurrence.turn?_of_ne (Ne.symm outside.1) _)]
      obtain ⟨noTurn, noTick⟩ := ih outside.2
      exact ⟨noTurn, noTick.trans (if_neg fun same => outside.1 (Option.some.inj same).symm)⟩
  | asks later ih => exact ih outside
  | @tells other left seen ahead rest later ih =>
      obtain ⟨noTurn, noTick⟩ := ih outside
      refine ⟨noTurn, ?_⟩
      by_cases same : other = owner
      · subst same
        rw [List.filterMap_cons_some (Occurrence.tick?_self ..), noTick, if_pos rfl]
        rfl
      · rw [List.filterMap_cons_none (Occurrence.tick?_of_ne same ..), noTick,
          if_neg fun equal => same (Option.some.inj equal)]
        rfl

/-- An owner whose turn is to come has one turn, and time is told to it if it waits then. -/
theorem coming (turns : Turns delta start due ahead own) (distinct : ahead.Nodup)
    (inside : owner ∈ ahead) (later : due ≠ some owner) :
    ∃ seen, own.filterMap (Occurrence.turn? owner) = [seen] ∧
      own.filterMap (Occurrence.tick? owner) =
        (if seen.timers.contains owner then [delta] else []) ∧
      (seen.timers.contains owner = true → start.timers.contains owner = true) := by
  induction turns with
  | done => cases inside
  | aside aside _ ih =>
      obtain ⟨noTurn, noTick⟩ := Occurrence.turn?_aside aside owner
      rw [List.filterMap_cons_none noTurn, List.filterMap_cons_none noTick]
      exact ih distinct inside later
  | @skips other seen ahead rest left turns ih =>
      obtain ⟨fresh, distinct⟩ := List.nodup_cons.1 distinct
      rw [List.filterMap_cons_none (f := Occurrence.tick? owner) rfl]
      by_cases same : other = owner
      · subst same
        obtain ⟨noTurn, noTick⟩ := turns.passed fresh
        refine ⟨seen, ?_, ?_, fun waits => absurd waits (Bool.eq_false_iff.1 left)⟩
        · rw [List.filterMap_cons_some (Occurrence.turn?_self other seen), noTurn]
        · rw [noTick, left]
          rfl
      · rw [List.mem_cons, or_iff_right (Ne.symm same)] at inside
        rw [List.filterMap_cons_none (Occurrence.turn?_of_ne same seen)]
        exact ih distinct inside later
  | @calls other seen ahead rest waits waited turns ih =>
      obtain ⟨fresh, distinct⟩ := List.nodup_cons.1 distinct
      rw [List.filterMap_cons_none (f := Occurrence.tick? owner) rfl]
      by_cases same : other = owner
      · subst same
        obtain ⟨noTurn, noTick⟩ := turns.passed fresh
        refine ⟨seen, ?_, ?_, fun _ => waited⟩
        · rw [List.filterMap_cons_some (Occurrence.turn?_self other seen), noTurn]
        · rw [noTick, waits, if_pos rfl, if_pos rfl]
      · rw [List.mem_cons, or_iff_right (Ne.symm same)] at inside
        rw [List.filterMap_cons_none (Occurrence.turn?_of_ne same seen)]
        exact ih distinct inside fun equal => same (Option.some.inj equal)
  | asks _ ih => exact ih distinct inside later
  | @tells other left seen ahead rest _ ih =>
      have different : other ≠ owner := fun same => later (congrArg some same)
      rw [List.filterMap_cons_none (Occurrence.tick?_of_ne different ..)]
      exact ih distinct inside (Option.some_ne_none owner).symm

end Turns

/-- The clock follows the turns of every open walk. -/
theorem Clock.Runs.turns {happened : List (Occurrence π)} {inner outer : List (Walk π)}
    {delta : Float32} {start : Entity π} {ahead : List Owner} {due : Option Owner}
    (runs : Clock.Runs ⟨inner ++ ⟨delta, start, ahead⟩ :: outer, due⟩ happened ⟨[], none⟩) :
    Turns delta start (if inner = [] then due else none) ahead (ownWalk inner.length happened) := by
  induction happened generalizing inner ahead due with
  | nil =>
      cases inner <;> cases runs
  | cons o rest ih =>
      cases runs with
      | step step later =>
          cases inner with
          | nil =>
              rw [if_pos rfl]
              cases step with
              | aside aside =>
                  rw [List.length_nil, (ownWalk_aside aside rest).1]
                  exact .aside aside (by simpa using @ih [] ahead none later)
              | @opens _ delta' start' distinct =>
                  have next := @ih [⟨delta', start', start'.timers.owners⟩] ahead none later
                  rwa [ite_self] at next
              | @skips _ _ _ _ _ ahead left =>
                  exact .skips left (by simpa using @ih [] ahead none later)
              | @calls _ _ _ _ owner ahead waits waited =>
                  exact .calls waits waited (by simpa using @ih [] ahead (some owner) later)
              | @asks _ owner => exact .asks (by simpa using @ih [] ahead (some owner) later)
              | tells => exact .tells (by simpa using @ih [] ahead none later)
              | closes => exact .done
          | cons top inner =>
              rw [if_neg (List.cons_ne_nil _ _)]
              cases step with
              | aside aside =>
                  rw [List.length_cons, (ownWalk_aside aside rest).2]
                  simpa using @ih (top :: inner) ahead none later
              | @opens _ delta' start' distinct =>
                  simpa [ownWalk] using
                    @ih (⟨delta', start', start'.timers.owners⟩ :: top :: inner) ahead none later
              | @skips _ delta' start' _ _ ahead' left =>
                  simpa [ownWalk] using @ih (⟨delta', start', ahead'⟩ :: inner) ahead none later
              | @calls _ delta' start' _ owner ahead' waits waited =>
                  simpa [ownWalk] using @ih (⟨delta', start', ahead'⟩ :: inner) ahead (some owner) later
              | @asks _ owner => simpa [ownWalk] using @ih (top :: inner) ahead (some owner) later
              | tells => simpa [ownWalk] using @ih (top :: inner) ahead none later
              | closes =>
                  have next := @ih inner ahead none later
                  rwa [ite_self] at next

end StatusEffects
