import IFramework.EventSourcing.CommandProcessor
import IFramework.Theory.Run

/-!
# Any number of command processors on one event store

The command processors share the event store and the snapshot store; each has its own in-memory
store, and each handles any number of commands at a time. A worker is one call of `ConsumeMessage`.
An action is one atomic operation of one worker: a call of its handler, an operation on the
in-memory store, on the snapshot store or on the event store, or the settlement of a commit.

A command may be delivered any number of times, to any processor. The id of a command determines its
key (`keyOf`). What the handler does is chosen anew in each attempt. `evict` is the in-memory store
dropping an aggregate when it is full.

`batches` records, for each aggregate, the accepted batches with the command each one came from and
the aggregate its handler was given; no step reads it.
-/

namespace IFramework.EventSourcing

/-- The next operation of a worker. -/
inductive Point (S P R : Type) where
  | begin
  | handle (handler : Handler S P R)
  | readSnapshot (next : Option (Stored S) → Handler S P R)
  | readEvents (snapshot : Option (Stored S)) (next : Option (Stored S) → Handler S P R)
  | setMemory (aggregate : Stored S) (fromVersion : Nat) (next : Option (Stored S) → Handler S P R)
  | updateSnapshot (aggregate : Stored S) (fromVersion : Nat)
      (next : Option (Stored S) → Handler S P R)
  | append
  | settle (outcome : AppendOutcome P R)
  | ended (messages : List (Message P R))

/-- A call of `ConsumeMessage`. -/
structure Worker (S P R : Type) where
  processor : Nat
  context : CommandContext
  retryCount : Nat
  scope : Scope S P R
  point : Point S P R

/-- A batch of events that the event store has accepted. -/
structure Batch (S P : Type) where
  commandId : String
  observed : Option (Stored S)
  events : List (Event P)

/-- The stores, and the workers so far. -/
structure State (S P R T : Type) where
  redis : Redis T
  snapshots : String → Option (Stored S)
  memory : Nat → String → Option (Stored S)
  workers : Nat → Worker S P R
  workerCount : Nat
  batches : String → List (Batch S P)

/-- An operation of one worker, a delivery, or an eviction. -/
inductive Action (S P R : Type) where
  | deliver (processor : Nat) (commandId : String) (replyToEndPoint : Option String)
      (sagaInfo : Option SagaInfo)
  | attempt (w : Nat) (handler : Handler S P R)
  | work (w : Nat)
  | evict (processor : Nat) (id : String)

section System

variable {S P R T : Type}

/-- The worker that stands for a worker that has not been created. -/
def Worker.none : Worker S P R := ⟨0, ⟨"", "", .none, .none⟩, 0, .new, .ended []⟩

/-- Empty stores. -/
def State.init : State S P R T where
  redis := fun _ => none
  snapshots := fun _ => none
  memory := fun _ _ => none
  workers := fun _ => .none
  workerCount := 0
  batches := fun _ => []

namespace State

/-- Replace a worker. -/
abbrev setWorker (s : State S P R T) (w : Nat) (worker : Worker S P R) : State S P R T :=
  { s with workers := Function.update s.workers w worker }

/-- Write an aggregate into the in-memory store of a processor, or remove it. -/
abbrev setMemory (s : State S P R T) (p : Nat) (id : String) (aggregate : Option (Stored S)) :
    State S P R T :=
  { s with memory := Function.update s.memory p (Function.update (s.memory p) id aggregate) }

end State

/-- `IConcurrencyProcessor.ProcessAsync` repeats the delegate this many times at most. -/
def retryLimit : Nat := 50

/-- A worker whose handler has thrown goes on to commit. -/
abbrev Worker.thrown (worker : Worker S P R) (e : Exn P) : Worker S P R :=
  { worker with scope := handleException worker.context worker.scope e, point := .append }

/-- A worker that has loaded an aggregate goes on with its handler. -/
abbrev Worker.loaded (worker : Worker S P R) (aggregate : Stored S)
    (next : Option (Stored S) → Handler S P R) : Worker S P R :=
  { worker with
    scope := { worker.scope with entry := some (.loaded aggregate) }
    point := .handle (next (some aggregate)) }

/-- A worker after `CommitAsync`: it ends, or repeats the delegate. -/
def Worker.afterCommit (worker : Worker S P R) (scope : Scope S P R) :
    CommitOutcome → Worker S P R
  | .returned => { worker with scope := scope, point := .ended (outgoing worker.context scope) }
  | .dbConcurrencyException =>
    if worker.retryCount = 0 then { worker with scope := scope, point := .ended [] }
    else { worker with scope := scope, retryCount := worker.retryCount - 1, point := .begin }
  | .redisException => { worker with scope := scope, point := .ended [] }

variable (type : AggregateType S P) (json : Json T P R)

/-- The next call of the handler of a worker. -/
def handlerStep (s : State S P R T) (w : Nat) : Handler S P R → State S P R T
  | .return => s.setWorker w { s.workers w with point := .append }
  | .throw e => s.setWorker w ((s.workers w).thrown e)
  | .call c next =>
    match c.perform type (s.workers w).scope with
    | .ok scope => s.setWorker w { s.workers w with scope := scope, point := .handle next }
    | .error e => s.setWorker w ((s.workers w).thrown e)
  | .getByKey next =>
    let worker := s.workers w
    match worker.scope.entry with
    | some e => s.setWorker w { worker with point := .handle (next (some e.entity.store)) }
    | none =>
      match s.memory worker.processor worker.context.key with
      | some aggregate => s.setWorker w (worker.loaded aggregate next)
      | none => s.setWorker w { worker with point := .readSnapshot next }

variable [DecidableEq T]

/-- The batch of a commit that the event store accepts. -/
def newBatch (context : CommandContext) (scope : Scope S P R) :
    AppendOutcome P R → List (Batch S P)
  | .appended =>
    match scope.changed with
    | some e =>
      if scope.expectedVersion ≥ 0 then [⟨context.messageId, e.origin, e.entity.eventQueue⟩]
      else []
    | none => []
  | _ => []

/-- The next operation of a worker. -/
def workStep (s : State S P R T) (w : Nat) : Option (State S P R T) :=
  let worker := s.workers w
  match worker.point with
  | .handle handler => some (handlerStep type s w handler)
  | .readSnapshot next =>
    some (s.setWorker w
      { worker with point := .readEvents (s.snapshots worker.context.key) next })
  | .readEvents snapshot next =>
    match getEvents json s.redis worker.context.key (fromVersion snapshot + 1) none with
    | .error _ => some (s.setWorker w (worker.thrown redisServerException))
    | .ok events =>
      match rebuild type snapshot events with
      | none => some (s.setWorker w { worker with point := .handle (next none) })
      | some aggregate =>
        some (s.setWorker w
          { worker with point := .setMemory aggregate (fromVersion snapshot) next })
  | .setMemory aggregate fromVersion next =>
    some ((s.setMemory worker.processor worker.context.key (some aggregate)).setWorker w
      { worker with point := .updateSnapshot aggregate fromVersion next })
  | .updateSnapshot aggregate fromVersion next =>
    if aggregate.version > fromVersion then
      some ({ s with
        snapshots := Function.update s.snapshots worker.context.key (some aggregate) }.setWorker w
          (worker.loaded aggregate next))
    else some (s.setWorker w (worker.loaded aggregate next))
  | .append =>
    let (redis, outcome) :=
      appendEvents json s.redis (commitArguments worker.context worker.scope)
    some ({ s with
      redis := redis
      batches := Function.update s.batches worker.context.key
        (s.batches worker.context.key ++ newBatch worker.context worker.scope outcome) }.setWorker w
          { worker with point := .settle outcome })
  | .settle outcome =>
    match EventSourcing.settle worker.scope outcome with
    | (scope, .keep, result) => some (s.setWorker w (worker.afterCommit scope result))
    | (scope, .set aggregate, result) =>
      some ((s.setMemory worker.processor worker.context.key (some aggregate)).setWorker w
        (worker.afterCommit scope result))
    | (scope, .remove, result) =>
      some ((s.setMemory worker.processor worker.context.key none).setWorker w
        (worker.afterCommit scope result))
  | .begin | .ended _ => none

/-- One action of the system. -/
def step (keyOf : String → String) (s : State S P R T) : Action S P R → Option (State S P R T)
  | .deliver processor commandId replyToEndPoint sagaInfo =>
    some { s.setWorker s.workerCount
      { processor := processor
        context := ⟨commandId, keyOf commandId, replyToEndPoint, sagaInfo⟩
        retryCount := retryLimit
        scope := .new
        point := .begin } with workerCount := s.workerCount + 1 }
  | .attempt w handler =>
    match (s.workers w).point with
    | .begin =>
      some (s.setWorker w
        { s.workers w with scope := (s.workers w).scope.begin, point := .handle handler })
    | _ => none
  | .work w => workStep type json s w
  | .evict processor id => some (s.setMemory processor id none)

end System

end IFramework.EventSourcing
