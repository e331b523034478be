import IFramework.EventSourcing.Repository

/-!
# The unit of work of a command

`UnitOfWork.CommitAsync` collects the events of the aggregate the handler has added or changed,
appends them, and then either publishes them and caches the aggregate, or makes good for what the
event store has refused. The three parts are separate here, since other handlers act between them:
the arguments of `AppendEvents` (`commitArguments`), the call of the store (`appendEvents`), and
what follows on its outcome (`settle`).

A repository has at most one entry: the command's aggregate.
-/

namespace IFramework.EventSourcing

/-- The objects of the scope of one command: the entry of the repository, the event bus, and the
`Reply` of the message context. -/
structure Scope (S P R : Type) where
  entry : Option (EntityEntry S P)
  bus : EventBus (Event P) (Obj P R)
  reply : Option (Obj P R)

namespace Scope

variable {S P R : Type}

/-- The scope at the start of the first attempt. -/
def new : Scope S P R := ⟨none, .new, none⟩

/-- The start of an attempt: reset the reply and the event bus. -/
def begin (s : Scope S P R) : Scope S P R :=
  { s with reply := none, bus := s.bus.clearMessages true }

/-- `Rollback`. -/
def rollback (s : Scope S P R) : Scope S P R := { s with entry := none }

/-- The aggregate that `CommitAsync` finds added or modified. -/
def changed (s : Scope S P R) : Option (EntityEntry S P) :=
  s.entry.filter fun e => e.entityState = .added ∨ e.entityState = .modified

/-- The events of that aggregate. -/
def aggregateEvents (s : Scope S P R) : Option (List (Event P)) :=
  s.changed.map fun e => e.entity.eventQueue

/-- `expectedVersion`, `-1` when there are no events to append. -/
def expectedVersion (s : Scope S P R) : Int :=
  match s.changed with
  | none => -1
  | some e => if e.entity.eventQueue = [] then -1 else e.version

/-- A negative version is passed exactly when there are no events. -/
theorem expectedVersion_neg_iff (s : Scope S P R) :
    s.expectedVersion < 0 ↔ s.aggregateEvents.getD [] = [] := by
  unfold expectedVersion aggregateEvents
  cases s.changed with
  | none => simp
  | some e =>
    by_cases he : e.entity.eventQueue = []
    · simp [he]
    · simp [he]

end Scope

section Commit

variable {S P R T : Type}

/-- The arguments with which `CommitAsync` calls `AppendEvents`. -/
def commitArguments (context : CommandContext) (s : Scope S P R) : AppendArguments P R where
  id := context.key
  expectedVersion := s.expectedVersion
  correlationId := context.messageId
  result := s.reply
  sagaResult := s.bus.getSagaResult
  aggregateRootEvents := s.aggregateEvents
  applicationEvents := some s.bus.getEvents

/-- What `CommitAsync` does to the in-memory store. -/
inductive MemoryEffect (S : Type) where
  | keep
  | set (aggregate : Stored S)
  | remove

/-- How `CommitAsync` ends: it returns, or it throws the exception of the event store. -/
inductive CommitOutcome where
  | returned
  | dbConcurrencyException
  | redisException
  deriving DecidableEq, Repr

/-- The exception `AddDuplicatedAggregateRoot`. -/
def addDuplicatedAggregateRoot (id : String) : Obj P R :=
  .exn (.domain .duplicatedObject ("Add duplicated aggregate root with id " ++ id) none)

/-- `CommitAsync` after the call of `AppendEvents`. -/
def settle (s : Scope S P R) :
    AppendOutcome P R → Scope S P R × MemoryEffect S × CommitOutcome
  | .appended =>
    let effect : MemoryEffect S :=
      match s.changed with
      | some e => if s.expectedVersion ≥ 0 then .set e.entity.store else .keep
      | none => .keep
    ({ s with bus := s.bus.publishAll s.aggregateEvents }, effect, .returned)
  | .dbConcurrencyException =>
    (s.rollback, if s.changed.isSome then .remove else .keep, .dbConcurrencyException)
  | .addDuplicatedAggregateRoot id =>
    ({ s with
        bus := (s.bus.clearMessages true).finishSaga (addDuplicatedAggregateRoot id)
        reply := some (addDuplicatedAggregateRoot id) }, .keep, .returned)
  | .messageDuplicatelyHandled commandResult sagaResult aggregateRootEvents applicationEvents =>
    let bus := ((s.bus.clearMessages true).publishAll aggregateRootEvents).publishAll
      applicationEvents
    ({ s with
        bus :=
          match sagaResult with
          | some r => bus.finishSaga r
          | none => bus
        reply := commandResult }, .keep, .returned)
  | .redisException _ => (s, .keep, .redisException)

/-- `CommitAsync`, on the event store and the scope. -/
def commitAsync [DecidableEq T] (json : Json T P R) (context : CommandContext) (db : Redis T)
    (s : Scope S P R) : Redis T × Scope S P R × MemoryEffect S × CommitOutcome :=
  let (db, outcome) := appendEvents json db (commitArguments context s)
  (db, settle s outcome)

end Commit

end IFramework.EventSourcing
