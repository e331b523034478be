import IFramework.EventSourcing.EventStore
import Mathlib.Data.List.Sort

/-!
# Aggregate roots and their repository

`EventSourcingAggregateRoot` with the two classes it inherits from, the entry a repository keeps for
an aggregate, and the parts of `GetByKeyAsync`. The state of an aggregate is changed by `apply`, the
`Handle` method of the event, which is called by `OnEvent` and by `Replay`.

The in-memory store and the snapshot store keep JSON texts, which hold the public properties of an
aggregate: its state and its version, not the private version cache and event queue. Versions are
natural numbers, below `2^31 - 1` in the source.
-/

namespace IFramework.EventSourcing

/-- An `EventSourcingAggregateRoot`. -/
structure AggregateRoot (S P : Type) where
  state : S
  version : Nat
  newVersion : Nat
  eventQueue : List (Event P)

/-- What the JSON text of an aggregate holds. -/
structure Stored (S : Type) where
  state : S
  version : Nat
  deriving DecidableEq, Repr

/-- How the instances of an aggregate type start and how they handle an event. -/
structure AggregateType (S P : Type) where
  blank : S
  apply : S → Event P → S

namespace AggregateRoot

variable {S P : Type} (type : AggregateType S P)

/-- `Activator.CreateInstance`. -/
def createInstance : AggregateRoot S P := ⟨type.blank, 0, 0, []⟩

/-- `ToJson`. -/
def store (a : AggregateRoot S P) : Stored S := ⟨a.state, a.version⟩

/-- `ToJsonObject`. -/
def load (s : Stored S) : AggregateRoot S P := ⟨s.state, s.version, 0, []⟩

/-- The property `NewVersion`: the version after the one the aggregate had when it was first read. -/
def getNewVersion (a : AggregateRoot S P) : Nat :=
  if a.newVersion = 0 then a.version + 1 else a.newVersion

/-- `OnEvent`. -/
def onEvent (a : AggregateRoot S P) (payload : P) : AggregateRoot S P :=
  let event : Event P := ⟨a.getNewVersion, payload⟩
  { state := type.apply a.state event
    version := a.getNewVersion
    newVersion := a.getNewVersion
    eventQueue := a.eventQueue ++ [event] }

/-- One event of `Replay`. -/
def handleEvent (a : AggregateRoot S P) (event : Event P) : AggregateRoot S P :=
  { a with state := type.apply a.state event, version := event.version }

/-- `Replay`. -/
def replay (a : AggregateRoot S P) (events : List (Event P)) : AggregateRoot S P :=
  (events.insertionSort fun e e' => e.version ≤ e'.version).foldl (handleEvent type) a

end AggregateRoot

/-! ## Entries -/

/-- `EntityState`. -/
inductive EntityState where
  | added
  | modified
  | deleted
  | unchanged
  deriving DecidableEq, Repr

/-- An `EventSourcingEntityEntry`. `origin` is what the handler was given: the aggregate that was
loaded, `none` for one that was added. It is not part of the source. -/
structure EntityEntry (S P : Type) where
  version : Nat
  entity : AggregateRoot S P
  deleted : Bool
  origin : Option (Stored S)

/-- The property `EntityState`. -/
def EntityEntry.entityState {S P : Type} (e : EntityEntry S P) : EntityState :=
  if e.deleted then .deleted
  else if e.version = 0 then .added
  else if e.entity.version > e.version then .modified
  else .unchanged

/-- The entry for an aggregate that is added. -/
def EntityEntry.add {S P : Type} (entity : AggregateRoot S P) : EntityEntry S P :=
  ⟨0, entity, false, none⟩

/-- The entry for an aggregate that is loaded. -/
def EntityEntry.loaded {S P : Type} (s : Stored S) : EntityEntry S P :=
  ⟨s.version, .load s, false, some s⟩

/-! ## Loading -/

section Load

variable {S P : Type} (type : AggregateType S P)

/-- The part of `GetByKeyAsync` between the reads and the writes: the snapshot, or a new instance if
there are events, with the events replayed on it. -/
def rebuild (snapshot : Option (Stored S)) (events : List (Event P)) : Option (Stored S) :=
  match snapshot, events with
  | none, [] => none
  | none, e :: es => some ((AggregateRoot.createInstance type).replay type (e :: es)).store
  | some s, [] => some s
  | some s, e :: es => some ((AggregateRoot.load s).replay type (e :: es)).store

/-- The version from which `GetByKeyAsync` reads the events. -/
def fromVersion (snapshot : Option (Stored S)) : Nat :=
  match snapshot with
  | none => 0
  | some s => s.version

end Load

end IFramework.EventSourcing
