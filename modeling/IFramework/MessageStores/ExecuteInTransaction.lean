import IFramework.Event.EventSubscriber

/-!
# The retried transaction of the processors

`CommandProcessor.ConsumeMessage` and `EventSubscriber.ConsumeMessage` pass a delegate to
`ExecuteInTransactionAsync`. It runs the handler, wraps what is on the event bus and adds it to the
lists `eventMessageStates` and `commandMessageStates`, and has the message store add and save its
rows. The execution strategy of EF Core invokes the delegate again when it fails with a transient
error. The database is rolled back then; the event bus, the reply, the lists and the change tracker
outlive the attempt.

The delegate is the list of its calls; an attempt that fails has made the first of them. A handler
makes the same calls in each attempt, except that its `catch` blocks may roll a unit of work back
before the error leaves it. Adding an entity throws when one with the same key is tracked already,
which is no transient error: `sameKey` compares the keys.
-/

namespace IFramework.TransientFaults

open EventSubscribers (EventContext CommandMessage)

/-! ## The delegate -/

/-- A call of the handler on what belongs to its scope. -/
inductive HandlerCall (W C P R : Type) where
  | publish (event : Event P)
  | publishAnyway (events : List (Event P))
  | sendCommand (command : C)
  | finishSaga (sagaResult : Obj P R)
  | clearMessages (clearPublishAnywayMessages : Bool)
  /-- The property `Reply` of the context of a command is set. -/
  | setReply (reply : Option (Obj P R))
  /-- An entity is added to the `DbContext`. -/
  | add (entity : W)
  | saveChanges
  /-- `Rollback` of the `DbContext`. -/
  | rollback

/-- A call of the delegate. -/
inductive Call (W C P R : Type) where
  | handler (call : HandlerCall W C P R)
  /-- The reply is wrapped, if the command needs one. -/
  | addReply
  /-- The commands of the bus are wrapped. -/
  | addCommands
  /-- The events of the bus are wrapped. -/
  | addEvents
  /-- The publish-anyway events of the bus are wrapped. -/
  | addPublishAnywayEvents
  /-- `GetSagaReplyMessageState`. -/
  | addSagaReply
  /-- The message store adds its rows. -/
  | store
  /-- The message store saves, if it has added a row. -/
  | saveStore

/-- The processor, with the context of its message. -/
inductive Consumer (M : Type) where
  | commandProcessor (context : CommandContext)
  | eventSubscriber (context : EventContext M) (subscriptionName : String)

section Delegate

variable {W C M P R : Type}

/-- The calls of the delegate. -/
def Consumer.delegate (consumer : Consumer M) (handler : List (HandlerCall W C P R)) :
    List (Call W C P R) :=
  handler.map .handler ++
    match consumer with
    | .commandProcessor _ =>
      [.addReply, .addEvents, .addPublishAnywayEvents, .addSagaReply, .store, .saveStore]
    | .eventSubscriber _ _ =>
      [.addCommands, .addEvents, .addPublishAnywayEvents, .addSagaReply, .store, .saveStore]

/-- The `MessageId` of the context. -/
def Consumer.messageId : Consumer M → String
  | .commandProcessor context => context.messageId
  | .eventSubscriber context _ => context.messageId

/-- The `SagaInfo` of the context. -/
def Consumer.sagaInfo : Consumer M → Option SagaInfo
  | .commandProcessor context => context.sagaInfo
  | .eventSubscriber context _ => context.sagaInfo

/-- The reply; an event has none. -/
def Consumer.replyMessages (consumer : Consumer M) (reply : Option (Obj P R)) :
    List (Message P R) :=
  match consumer with
  | .commandProcessor context => Commands.replyMessages context reply
  | .eventSubscriber _ _ => []

end Delegate

/-! ## What outlives an attempt -/

/-- The event bus with its command queue, the reply, and the lists of the messages. -/
structure Messages (C P R : Type) where
  bus : EventBus (Event P) (Obj P R)
  commandQueue : List C
  reply : Option (Obj P R)
  eventMessageStates : List (Message P R)
  commandMessageStates : List (CommandMessage C)

/-- What is tracked. -/
inductive Entity (W C P R : Type) where
  | write (entity : W)
  | command (id : String)
  | handledEvent (id subscriptionName : String)
  | event (message : Message P R)
  | unPublishedEvent (message : Message P R)
  | unSentCommand (command : CommandMessage C)

/-- The change tracker, and the rows that were inserted in the current transaction. -/
structure DbContext (W C P R : Type) where
  added : List (Entity W C P R)
  unchanged : List (Entity W C P R)
  inserted : List (Entity W C P R)

/-- The scope of a message. -/
structure Scope (W C P R : Type) where
  messages : Messages C P R
  db : DbContext W C P R

/-- `MessageQueueOptions`. -/
structure MessageQueueOptions where
  ensureIdempotent : Bool
  persistEvent : Bool
  ensureArrival : Bool
  deriving DecidableEq, Repr

section Calls

variable {W C M P R : Type}

/-- A new scope has an empty bus and no reply. -/
def Messages.new : Messages C P R := ⟨.new, [], none, [], []⟩

/-- What a call of the handler does to the messages. -/
def Messages.handle (m : Messages C P R) : HandlerCall W C P R → Messages C P R
  | .publish event => { m with bus := m.bus.publish event }
  | .publishAnyway events => { m with bus := m.bus.publishAnyway events }
  | .sendCommand command => { m with commandQueue := m.commandQueue ++ [command] }
  | .finishSaga sagaResult => { m with bus := m.bus.finishSaga sagaResult }
  | .clearMessages clearAnyway =>
    { m with bus := m.bus.clearMessages clearAnyway, commandQueue := [] }
  | .setReply reply => { m with reply := reply }
  | .add _ => m
  | .saveChanges => m
  | .rollback => m

/-- What a call does to the messages. -/
def Messages.exec (consumer : Consumer M) (m : Messages C P R) : Call W C P R → Messages C P R
  | .handler call => m.handle call
  | .addReply =>
    { m with eventMessageStates := m.eventMessageStates ++ consumer.replyMessages m.reply }
  | .addCommands =>
    { m with
      commandMessageStates :=
        m.commandMessageStates ++ m.commandQueue.map fun c => ⟨c, consumer.sagaInfo⟩ }
  | .addEvents =>
    { m with
      eventMessageStates := m.eventMessageStates ++
        m.bus.getEvents.map fun e => .event e consumer.messageId consumer.sagaInfo }
  | .addPublishAnywayEvents =>
    { m with
      eventMessageStates := m.eventMessageStates ++
        m.bus.getToPublishAnywayMessages.map fun e =>
          .event e consumer.messageId consumer.sagaInfo }
  | .addSagaReply =>
    { m with
      eventMessageStates :=
        m.eventMessageStates ++ (sagaReplyMessage consumer.sagaInfo m.bus).toList }
  | .store => m
  | .saveStore => m

/-- The rows of a published message. -/
def messageRows (options : MessageQueueOptions) (message : Message P R) : List (Entity W C P R) :=
  (if options.persistEvent then [.event message] else []) ++
    if options.ensureArrival then [.unPublishedEvent message] else []

/-- `SaveCommandAsync` and `HandleEventAsync`: the rows that are added. -/
def Consumer.rows (consumer : Consumer M) (options : MessageQueueOptions) (m : Messages C P R) :
    List (Entity W C P R) :=
  match consumer with
  | .commandProcessor context =>
    (if options.ensureIdempotent then [.command context.messageId] else []) ++
      m.eventMessageStates.flatMap (messageRows options)
  | .eventSubscriber context subscriptionName =>
    (if options.ensureIdempotent then [.handledEvent context.messageId subscriptionName] else []) ++
      (if options.ensureArrival then m.commandMessageStates.map .unSentCommand else []) ++
      m.eventMessageStates.flatMap (messageRows options)

namespace DbContext

/-- A new context. -/
def new : DbContext W C P R := ⟨[], [], []⟩

/-- `Add`; `none` is the exception for a key that is tracked already. -/
def add (sameKey : Entity W C P R → Entity W C P R → Bool) (db : DbContext W C P R)
    (entity : Entity W C P R) : Option (DbContext W C P R) :=
  if (db.added ++ db.unchanged).any (sameKey entity) then none
  else some { db with added := db.added ++ [entity] }

/-- `SaveChangesAsync`: the tracker accepts the entities that were inserted. -/
def saveChanges (db : DbContext W C P R) : DbContext W C P R where
  added := []
  unchanged := db.unchanged ++ db.added
  inserted := db.inserted ++ db.added

/-- `Rollback`: nothing is tracked any more. -/
def rollback (db : DbContext W C P R) : DbContext W C P R :=
  { db with added := [], unchanged := [] }

/-- The transaction is rolled back. The tracker is not told. -/
def beginTransaction (db : DbContext W C P R) : DbContext W C P R := { db with inserted := [] }

/-- What a call does to the context. -/
def exec (sameKey : Entity W C P R → Entity W C P R → Bool) (options : MessageQueueOptions)
    (consumer : Consumer M) (m : Messages C P R) (db : DbContext W C P R) :
    Call W C P R → Option (DbContext W C P R)
  | .handler (.add entity) => db.add sameKey (.write entity)
  | .handler .saveChanges => some db.saveChanges
  | .handler .rollback => some db.rollback
  | .store => (consumer.rows options m).foldlM (add sameKey) db
  | .saveStore =>
    match (consumer.rows options m : List (Entity W C P R)) with
    | [] => some db
    | _ :: _ => some db.saveChanges
  | _ => some db

end DbContext

/-- A new scope. -/
def Scope.new : Scope W C P R := ⟨.new, .new⟩

variable (sameKey : Entity W C P R → Entity W C P R → Bool) (options : MessageQueueOptions)
  (consumer : Consumer M)

/-- One call in a scope. -/
def Scope.exec (s : Scope W C P R) (call : Call W C P R) : Option (Scope W C P R) :=
  (s.db.exec sameKey options consumer s.messages call).map fun db =>
    ⟨s.messages.exec consumer call, db⟩

/-- One invocation of the delegate, in a transaction of its own. -/
def Scope.attempt (s : Scope W C P R) (calls : List (Call W C P R)) : Option (Scope W C P R) :=
  calls.foldlM (Scope.exec sameKey options consumer) { s with db := s.db.beginTransaction }

/-- What the `catch` blocks of a handler do before the error leaves it. -/
inductive Cleanup where
  | clearMessages (clearPublishAnywayMessages : Bool)
  | rollback
  deriving DecidableEq, Repr

/-- An attempt that fails with a transient error: how many calls it makes before, and what the
handler does when the error leaves it. -/
structure FailedAttempt where
  cut : Nat
  cleanup : List Cleanup
  deriving DecidableEq, Repr

/-- A step of the cleanup as a call of the handler. -/
def Cleanup.call : Cleanup → Call W C P R
  | .clearMessages clearAnyway => .handler (.clearMessages clearAnyway)
  | .rollback => .handler .rollback

/-- The calls of an attempt that fails. -/
def FailedAttempt.calls (failure : FailedAttempt) (handler : List (HandlerCall W C P R)) :
    List (Call W C P R) :=
  (consumer.delegate handler).take failure.cut ++
    if failure.cut ≤ handler.length then failure.cleanup.map Cleanup.call else []

/-- `ExecuteInTransactionAsync`: the attempts that fail, and the one that does not. -/
def executeInTransactionAsync (handler : List (HandlerCall W C P R))
    (failures : List FailedAttempt) : Option (Scope W C P R) := do
  let s ← failures.foldlM
    (fun (s : Scope W C P R) failure =>
      s.attempt sameKey options consumer (failure.calls consumer handler)) Scope.new
  s.attempt sameKey options consumer (consumer.delegate handler)

end Calls

end IFramework.TransientFaults
