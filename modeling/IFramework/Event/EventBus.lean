import IFramework.Base

/-!
# The event bus of a scope

What the handler of a message publishes, with the result of the saga. The command queue, which the
command processors do not read, is left out.
-/

namespace IFramework

/-- An `EventBus`, for events `E` and saga results `O`. -/
structure EventBus (E O : Type) where
  eventQueue : List E
  toPublishAnywayEventQueue : List E
  sagaResult : Option O
  deriving DecidableEq, Repr

namespace EventBus

variable {E O : Type}

/-- The constructor. -/
def new : EventBus E O := ⟨[], [], none⟩

/-- `Publish` on one event. -/
def publish (bus : EventBus E O) (event : E) : EventBus E O :=
  { bus with eventQueue := bus.eventQueue ++ [event] }

/-- `Publish` on an array of events, which may be `null`. -/
def publishAll (bus : EventBus E O) (events : Option (List E)) : EventBus E O :=
  (events.getD []).foldl publish bus

/-- `PublishAnyway`. -/
def publishAnyway (bus : EventBus E O) (events : List E) : EventBus E O :=
  { bus with toPublishAnywayEventQueue := bus.toPublishAnywayEventQueue ++ events }

/-- `GetEvents`. -/
def getEvents (bus : EventBus E O) : List E := bus.eventQueue

/-- `GetToPublishAnywayMessages`. -/
def getToPublishAnywayMessages (bus : EventBus E O) : List E := bus.toPublishAnywayEventQueue

/-- `GetSagaResult`. -/
def getSagaResult (bus : EventBus E O) : Option O := bus.sagaResult

/-- `FinishSaga`. -/
def finishSaga (bus : EventBus E O) (sagaResult : O) : EventBus E O :=
  { bus with sagaResult := some sagaResult }

/-- `ClearMessages`. -/
def clearMessages (bus : EventBus E O) (clearPublishAnywayMessages : Bool) : EventBus E O where
  eventQueue := []
  toPublishAnywayEventQueue :=
    if clearPublishAnywayMessages then [] else bus.toPublishAnywayEventQueue
  sagaResult := none

@[simp] theorem eventQueue_publish (bus : EventBus E O) (event : E) :
    (bus.publish event).eventQueue = bus.eventQueue ++ [event] := rfl

@[simp] theorem sagaResult_publish (bus : EventBus E O) (event : E) :
    (bus.publish event).sagaResult = bus.sagaResult := rfl

@[simp] theorem eventQueue_publishAll (bus : EventBus E O) (events : Option (List E)) :
    (bus.publishAll events).eventQueue = bus.eventQueue ++ events.getD [] := by
  unfold publishAll
  induction events.getD [] generalizing bus with
  | nil => simp
  | cons e es ih => simp [ih]

@[simp] theorem sagaResult_publishAll (bus : EventBus E O) (events : Option (List E)) :
    (bus.publishAll events).sagaResult = bus.sagaResult := by
  unfold publishAll
  induction events.getD [] generalizing bus with
  | nil => rfl
  | cons e es ih => simp [ih]

@[simp] theorem toPublishAnywayEventQueue_publishAll (bus : EventBus E O)
    (events : Option (List E)) :
    (bus.publishAll events).toPublishAnywayEventQueue = bus.toPublishAnywayEventQueue := by
  unfold publishAll
  induction events.getD [] generalizing bus with
  | nil => rfl
  | cons e es ih =>
    rw [List.foldl_cons, ih]
    rfl

@[simp] theorem eventQueue_finishSaga (bus : EventBus E O) (sagaResult : O) :
    (bus.finishSaga sagaResult).eventQueue = bus.eventQueue := rfl

@[simp] theorem sagaResult_finishSaga (bus : EventBus E O) (sagaResult : O) :
    (bus.finishSaga sagaResult).sagaResult = some sagaResult := rfl

@[simp] theorem eventQueue_clearMessages (bus : EventBus E O) (b : Bool) :
    (bus.clearMessages b).eventQueue = [] := rfl

@[simp] theorem sagaResult_clearMessages (bus : EventBus E O) (b : Bool) :
    (bus.clearMessages b).sagaResult = none := rfl

end EventBus

end IFramework
