import StatusEffects.Json.Printer
import StatusEffects.Scenario.Step
import StatusEffects.Snapshot

/-!
A stage: the entities of a scenario, one of them current, and what a command does to them.
-/

set_option autoImplicit false

namespace StatusEffects.Scenario

variable {π : Type}

structure Seat (π : Type) where
  entity : Entity π
  listeners : List String

structure Stage (π : Type) where
  seats : List (Seat π)
  current : Nat

inductive Command (π : Type) where
  | step (script : Script π (Answer π))
  /-- Adds an entity and makes it current. -/
  | spawn
  /-- Makes an entity current, the last one if the number is too large. -/
  | choose (index : Nat)
  | copyFrom (index : Nat) (source : Option SourceTag)
  /-- Sets the current entity up again from the text of a snapshot, its own one if none is given. -/
  | restore (snapshot : Option Json)
  | listen (name : String)

structure Report (π : Type) where
  answer : Except Fault (Answer π)
  /-- What happened, the earliest first. -/
  trace : List (Occurrence π)
  /-- Who listened to it. -/
  listeners : List String

/-- So many levels of nesting a command may use. -/
def levels : Nat := 10000

def Seat.new : Seat π := ⟨.new, ["a"]⟩

namespace Stage

def start : Stage π := ⟨[.new], 0⟩

/-- The seat of a number, the last one if the number is too large. -/
def seat (s : Stage π) (index : Nat) : Seat π := s.seats.getD (min index (s.seats.length - 1)) .new

def setSeat (s : Stage π) (seat : Seat π) : Stage π :=
  { s with seats := s.seats.set s.current seat }

variable [CustomTrigger π] (rules : Rulebook π)

private def act (s : Stage π) (step : Act π (Answer π)) : Report π × Stage π :=
  let seat := s.seat s.current
  match EStateM.run step (.ofEntity seat.entity) with
  | .ok answer w =>
    (⟨.ok answer, w.trace.reverse, seat.listeners⟩, s.setSeat { seat with entity := w.entity })
  | .error fault w =>
    (⟨.error fault, w.trace.reverse, seat.listeners⟩, s.setSeat { seat with entity := w.entity })

private def restore (s : Stage π) (text : String) : Report π × Stage π :=
  match Json.decodeText Snapshot.ofSource text with
  | .error e => (⟨.ok (.undecodable e), [], []⟩, s)
  | .ok snapshot =>
    match snapshot.restore rules levels with
    | .ok (.ok ()) w => (⟨.ok .restored, w.trace.reverse, []⟩, s.setSeat ⟨w.entity, ["a"]⟩)
    | .ok (.error e) w => (⟨.ok (.refused e), w.trace.reverse, []⟩, s)
    | .error fault w => (⟨.error fault, w.trace.reverse, []⟩, s)

def run (s : Stage π) (command : Command π) : Report π × Stage π :=
  let quiet (answer : Answer π) (s : Stage π) : Report π × Stage π := (⟨.ok answer, [], []⟩, s)
  match command with
  | .step script => s.act (Engine.runScript rules levels script)
  | .spawn =>
    quiet (.count s.seats.length) ⟨s.seats ++ [.new], s.seats.length⟩
  | .choose index =>
    let index := min index (s.seats.length - 1)
    quiet (.count index) { s with current := index }
  | .copyFrom index source =>
    s.act do
      let copied ← Engine.perform rules levels (.copyModifiers (s.seat index).entity source)
      pure (.count copied)
  | .restore snapshot =>
    s.restore rules (snapshot.getD (s.seat s.current).entity.snapshot.json).print
  | .listen name =>
    let seat := s.seat s.current
    quiet .nothing (s.setSeat { seat with listeners := seat.listeners ++ [name] })

omit [CustomTrigger π] in
private theorem seats_act (s : Stage π) (step : Act π (Answer π)) {index : Nat}
    (other : index ≠ s.current) : (s.act step).2.seats[index]? = s.seats[index]? := by
  unfold act
  dsimp only
  split
  · exact List.getElem?_set_ne other.symm
  · exact List.getElem?_set_ne other.symm

/-- What the command leaves in the current seat is what the call leaves. -/
theorem run_copyFrom (s : Stage π) (original : Nat) (source : Option SourceTag) {copied : Nat}
    {after : World π} (copies : Engine.perform rules levels
      (.copyModifiers (s.seat original).entity source) (.ofEntity (s.seat s.current).entity) =
        .ok copied after) :
    s.run rules (.copyFrom original source) =
      (⟨.ok (.count copied), after.trace.reverse, (s.seat s.current).listeners⟩,
        s.setSeat { s.seat s.current with entity := after.entity }) := by
  have ends : EStateM.run (do
      let copied ← Engine.perform rules levels (.copyModifiers (s.seat original).entity source)
      pure (.count copied)) (.ofEntity (s.seat s.current).entity) =
        .ok (.count copied : Answer π) after := by
    change EStateM.bind _ _ _ = _
    unfold EStateM.bind
    rw [copies]
    rfl
  unfold run act
  dsimp only
  rw [ends]

/-- Copying leaves the seats of the other entities as they are, that of the original included. -/
theorem seats_run_copyFrom (s : Stage π) (original : Nat) (source : Option SourceTag) {index : Nat}
    (other : index ≠ s.current) :
    (s.run rules (.copyFrom original source)).2.seats[index]? = s.seats[index]? :=
  seats_act s _ other

end Stage

end StatusEffects.Scenario
